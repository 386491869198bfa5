import Showcase.Proofs.Registry.Gaps

/-!
# Spellings

Tokens may be written with any white space and comments between them, as long as
each still ends where it should (`Spelled`).  The texts that are read as some
tokens are their spellings (`spelled_iff`).
-/

namespace Showcase.Registry

/-- White space and comments, all of which are closed. -/
inductive Gap : Text → Prop where
  | nil : Gap []
  | blank {c : Char} {gap : Text} (blank : isBlank c = true) (later : Gap gap) :
      Gap (c :: gap)
  | lineComment {body gap : Text} (oneLine : '\n' ∉ body) (later : Gap gap) :
      Gap ('/' :: '/' :: body ++ '\n' :: gap)
  | blockComment {body gap : Text} (closed : commentEnd? body = some body.length)
      (later : Gap gap) : Gap ('/' :: '*' :: body ++ gap)

/-- A text that spells some tokens: there is a gap before each and behind the
last, where a line comment may run up to the end.  A token must end before what
follows it. -/
inductive Spelled : List Token → Text → Prop where
  | nil {gap comment : Text} (before : Gap gap) (last : IsComment comment) :
      Spelled [] (gap ++ comment)
  | cons {t : Token} {ts : List Token} {gap text : Text} (before : Gap gap)
      (genuine : t.Genuine)
      (apart : EndsBefore (some t.kind) t.text text.head?) (later :
        Spelled ts text) :
      Spelled (t :: ts) (gap ++ (t.text ++ text))

theorem Gap.lexed_append {gap : Text} (h : Gap gap) {start : Nat} {text : Text}
    {tokens : List Token} {next? : Option Char}
    (later : Lexed (start + gap.length) text tokens next?) :
    Lexed start (gap ++ text) tokens next? := by
  induction h generalizing start with
  | nil => exact later
  | @blank c gap blank _ ih =>
      have rest : Lexed (start + 1) (gap ++ text) tokens next? := ih (by
        rw [List.length_cons] at later
        rwa [Nat.add_assoc, Nat.add_comm 1])
      have here := Lexed.gap (.blank blank) (by simp [EndsBefore]) rest
      exact here
  | @lineComment body gap oneLine _ ih =>
      have rest : Lexed (start + ('/' :: '/' :: body).length + 1) (gap ++ text)
        tokens next? := ih (by
        rw [List.length_append, List.length_cons] at later
        rwa [Nat.add_assoc, Nat.add_assoc, Nat.add_comm 1])
      have ending := Lexed.gap (.blank (by decide : isBlank '\n' = true))
        (by simp [EndsBefore]) rest
      have comment := Lexed.gap (.lineComment oneLine) (by simp [EndsBefore]) ending
      simpa using comment
  | @blockComment body gap closed _ ih =>
      have rest : Lexed (start + ('/' :: '*' :: body).length) (gap ++ text) tokens
        next? := ih (by
        rwa [List.length_append, ← Nat.add_assoc] at later)
      have comment := Lexed.gap (.blockComment closed) (by simp [EndsBefore]) rest
      simpa using comment

theorem IsComment.lexed {comment : Text} (h : IsComment comment) (start : Nat) :
    Lexed start comment [] none := by
  rcases h with rfl | ⟨body, rfl, oneLine⟩
  · exact .nil
  · have : Lexed start ('/' :: '/' :: body ++ []) [] none :=
      .gap (.lineComment oneLine) (by simp [EndsBefore]) .nil
    rwa [List.append_nil] at this

private theorem Spelled.exists_lexed {tokens : List Token} {text : Text}
    (h : Spelled tokens text) (start : Nat) :
    ∃ tokens', Lexed start text tokens' none ∧ bare tokens' = bare tokens := by
  induction h generalizing start with
  | nil before last => exact ⟨[], before.lexed_append (last.lexed _), rfl⟩
  | @cons t ts gap text before genuine apart _ ih =>
      obtain ⟨ts', later, same⟩ := ih (start + gap.length + t.text.length)
      refine ⟨{ t with start := start + gap.length } :: ts', ?_,
        by simp [same, Token.bare]⟩
      have here : Lexed (start + gap.length) (t.text ++ text)
          ({ t with start := start + gap.length } :: ts') none :=
        .token genuine (by rwa [Option.or_none]) later
      exact before.lexed_append here

/-! ## Every text that is read is a spelling -/

private theorem Token.Genuine.head?_text {t : Token} (h : t.Genuine) (rest : Text) :
    (t.text ++ rest).head? ≠ some '\n' := by
  intro head
  exact h.first_ne_newline (Option.some.inj head)

private theorem Spelled.prepend {tokens : List Token} {text u : Text}
    (h : Spelled tokens text) (lexeme : Lexeme none u)
    (ends : EndsBefore none u text.head?) : Spelled tokens (u ++ text) := by
  cases lexeme with
  | @blank c blank =>
      cases h with
      | @nil gap comment before last =>
          rw [← List.append_assoc]
          exact .nil (.blank blank before) last
      | cons before genuine apart later =>
          exact .cons (.blank blank before) genuine apart later
  | @blockComment body closed =>
      cases h with
      | @nil gap comment before last =>
          rw [← List.append_assoc]
          exact .nil (.blockComment closed before) last
      | @cons t ts gap text before genuine apart later =>
          rw [← List.append_assoc]
          exact .cons (.blockComment closed before) genuine apart later
  | @lineComment body oneLine =>
      have next : ∀ c ∈ text.head?, c = '\n' := ends rfl
      cases h with
      | @nil gap comment before last =>
          cases before with
          | nil =>
              have : comment = [] := by
                rcases last with rfl | ⟨_, rfl, -⟩
                · rfl
                · exact absurd (next '/' rfl) (by decide)
              subst this
              simpa using Spelled.nil .nil (.inr ⟨body, rfl, oneLine⟩)
          | @blank c gap blank before =>
              obtain rfl := next c rfl
              have := Spelled.nil (.lineComment oneLine before) last
              simpa using this
          | lineComment => exact absurd (next '/' rfl) (by decide)
          | blockComment => exact absurd (next '/' rfl) (by decide)
      | @cons t ts gap text before genuine apart later =>
          cases before with
          | nil =>
              exact absurd (congrArg some (next t.first rfl))
                (genuine.head?_text text)
          | @blank c gap blank before =>
              obtain rfl := next c rfl
              have := Spelled.cons (.lineComment oneLine before) genuine apart later
              simpa using this
          | lineComment => exact absurd (next '/' rfl) (by decide)
          | blockComment => exact absurd (next '/' rfl) (by decide)

private theorem spelled_of_lexed {start : Nat} {text : Text}
    {tokens tokens' : List Token} (h : Lexed start text tokens none)
    (same : bare tokens = bare tokens') : Spelled tokens' text := by
  generalize last : none = next? at h
  induction h generalizing tokens' with
  | nil =>
      obtain rfl : tokens' = [] := List.map_eq_nil_iff.1 same.symm
      exact .nil .nil (.inl rfl)
  | gap lexeme ends _ ih =>
      subst last
      exact (ih same rfl).prepend lexeme (by rwa [Option.or_none] at ends)
  | @token start kind c u text tokens next? lexeme ends _ ih =>
      subst last
      cases tokens' with
      | nil => exact absurd same (List.cons_ne_nil _ _)
      | cons t' ts' =>
          obtain ⟨here, later⟩ := List.cons.inj same
          have kind_eq : t'.kind = kind := (congrArg Token.kind here).symm
          have text_eq : t'.text = c :: u := (congrArg Token.text here).symm
          have genuine : t'.Genuine := by
            rw [Token.Genuine, kind_eq, text_eq]; exact lexeme
          have apart : EndsBefore (some t'.kind) t'.text text.head? := by
            rw [kind_eq, text_eq]
            rwa [Option.or_none] at ends
          rw [← text_eq]
          exact .cons .nil genuine apart (ih later rfl)

/-- The spellings of some tokens are the texts that are read as these tokens. -/
theorem spelled_iff {tokens : List Token} {text : Text} :
    Spelled tokens text ↔ ∃ tokens', tokenize text = .ok tokens' ∧
      bare tokens' = bare tokens := by
  constructor
  · intro h
    obtain ⟨tokens', lexed, same⟩ := h.exists_lexed 0
    exact ⟨tokens', tokenize_eq_ok_iff.2 lexed, same⟩
  · rintro ⟨tokens', tokenized, same⟩
    exact spelled_of_lexed (tokenize_eq_ok_iff.1 tokenized) same

end Showcase.Registry

import Mathlib.Data.List.Induction
import Showcase.Proofs.Registry.Lexeme

/-!
# Chains of lexemes

A text that tokenizes is a chain of lexemes.  A chain only depends on the one
character that follows it, so chains can be cut behind a token and joined again.
`tokensFrom_eq_ok_iff` says that the tokenizer reads exactly the chains.
-/

namespace Showcase.Registry

/-- A text is a chain of lexemes with these tokens, if the character `next?`
follows it. -/
inductive Lexed : Nat → Text → List Token → Option Char → Prop where
  | nil {start : Nat} {next? : Option Char} : Lexed start [] [] next?
  | gap {start : Nat} {u text : Text} {tokens : List Token} {next? : Option Char}
      (lexeme : Lexeme none u) (ends : EndsBefore none u (text.head?.or next?))
      (later : Lexed (start + u.length) text tokens next?) :
      Lexed start (u ++ text) tokens next?
  | token {start : Nat} {kind : TokenKind} {c : Char} {u text : Text}
      {tokens : List Token}
      {next? : Option Char} (lexeme : Lexeme (some kind) (c :: u))
      (ends : EndsBefore (some kind) (c :: u) (text.head?.or next?))
      (later : Lexed (start + (c :: u).length) text tokens next?) :
      Lexed start (c :: u ++ text) (⟨kind, c, u, start, lexeme.single⟩ :: tokens)
        next?

private theorem head?_or_head? (text rest : Text) :
    text.head?.or rest.head? = (text ++ rest).head? := by
  cases text <;> simp

theorem Lexeme.eq_blank {kind? : Option TokenKind} {c : Char} {u : Text}
    (lexeme : Lexeme kind? (c :: u)) (blank : isBlank c = true) :
    kind? = none ∧ u = [] := by
  have slash : isBlank '/' = false := by decide
  cases lexeme with
  | blank _ => exact ⟨rfl, rfl⟩
  | lineComment _ => simp [slash] at blank
  | blockComment _ => simp [slash] at blank
  | string quoted _ =>
      simp only [isQuote, Bool.or_eq_true, beq_iff_eq] at quoted
      rcases quoted with (rfl | rfl) | rfl <;> exact absurd blank (by decide)
  | name named =>
      have := isNameChar_of_isBlank blank
      simp [named c] at this
  | punct notBlank => simp [notBlank] at blank

theorem tokensFrom_lexeme {start : Nat} {kind? : Option TokenKind} {c : Char}
    {u text : Text} (lexeme : Lexeme kind? (c :: u))
    (ends : EndsBefore kind? (c :: u) text.head?) :
    tokensFrom start (c :: u ++ text) =
      (tokensFrom (start + (c :: u).length) text).map fun later =>
        (kind?.map (Token.ofKind · c u start)).toList ++ later := by
  have position : start + 1 + u.length = start + (c :: u).length := by
    simp only [List.length_cons]
    omega
  by_cases blank : isBlank c = true
  · obtain ⟨rfl, rfl⟩ := lexeme.eq_blank blank
    rw [List.singleton_append, tokensFrom_blank text blank]
    cases tokensFrom (start + 1) text <;> rfl
  · have piece := piece_lexeme lexeme ends (by simpa using blank)
    cases kind? with
    | none =>
        rw [List.cons_append, tokensFrom_gap piece, List.drop_left, position]
        cases tokensFrom (start + (c :: u).length) text <;> rfl
    | some kind =>
        rw [List.cons_append, tokensFrom_token piece, List.drop_left,
          List.take_left, position]
        rfl

/-- The tokenizer reads a chain of lexemes whatever stands behind it. -/
theorem Lexed.tokensFrom_append {start : Nat} {text : Text}
    {tokens : List Token} (rest : Text)
    (h : Lexed start text tokens rest.head?) :
    tokensFrom start (text ++ rest) =
      (tokensFrom (start + text.length) rest).map (tokens ++ ·) := by
  generalize next : rest.head? = next? at h
  induction h with
  | @nil start =>
      rw [List.nil_append, List.length_nil, Nat.add_zero]
      cases tokensFrom start rest <;> rfl
  | @gap start u text tokens _ lexeme ends later ih =>
      obtain ⟨c, u, rfl⟩ := List.exists_cons_of_ne_nil lexeme.ne_nil
      rw [← next, head?_or_head?] at ends
      rw [List.append_assoc, tokensFrom_lexeme lexeme ends, ih next,
        List.length_append, Nat.add_assoc]
      cases tokensFrom (start + ((c :: u).length + text.length)) rest <;> rfl
  | @token start kind c u text tokens _ lexeme ends later ih =>
      rw [← next, head?_or_head?] at ends
      rw [List.append_assoc, tokensFrom_lexeme lexeme ends, ih next,
        List.length_append, Nat.add_assoc, Option.map_some, lexeme.ofKind_eq]
      cases tokensFrom (start + ((c :: u).length + text.length)) rest <;> rfl

private theorem lexed_of_tokensFrom {start : Nat} {text : Text}
    {tokens : List Token} (h : tokensFrom start text = .ok tokens) :
    Lexed start text tokens none := by
  induction len : text.length
    using Nat.strong_induction_on generalizing start text tokens with
  | _ n ih =>
    subst len
    cases text with
    | nil =>
        rw [tokensFrom] at h
        cases h
        exact .nil
    | cons c text =>
        by_cases blank : isBlank c = true
        · rw [tokensFrom_blank text blank] at h
          exact .gap (.blank blank) (by simp [EndsBefore]) (ih _ (by simp) h rfl)
        · cases found : piece c text with
          | error fault =>
              rw [tokensFrom, found] at h
              cases h
          | ok piece =>
              obtain ⟨kind?, n⟩ := piece
              obtain ⟨u, rest, rfl, rfl, lexeme, ends⟩ :=
                lexeme_of_piece found (by simpa using blank)
              rw [← List.cons_append, tokensFrom_lexeme lexeme ends] at h
              obtain ⟨later, hlater, rfl⟩ := map_eq_ok_iff.1 h
              have chain :=
                ih _ (by simp only [List.length_cons, List.length_append]; omega)
                hlater rfl
              cases kind? with
              | none => exact .gap lexeme (by simpa using ends) chain
              | some kind =>
                  rw [Option.map_some, lexeme.ofKind_eq]
                  exact .token lexeme (by simpa using ends) chain

/-- The tokenizer accepts exactly the chains of lexemes. -/
theorem tokensFrom_eq_ok_iff {start : Nat} {text : Text} {tokens : List Token} :
    tokensFrom start text = .ok tokens ↔ Lexed start text tokens none := by
  constructor
  · exact lexed_of_tokensFrom
  · intro h
    have := h.tokensFrom_append []
    rw [tokensFrom, List.append_nil] at this
    simpa [Except.map] using this

/-- A token that ends before a character ends before any other one, too, if it
is no slash and, where it is a name, either the character goes on names or the
other one does not. -/
theorem EndsBefore.of_notSlash {t : Token} {c : Char} {next? : Option Char}
    (h : EndsBefore (some t.kind) t.text (some c)) (notSlash : t.text ≠ ['/'])
    (named : t.kind = .name → isNameChar c = true ∨
      ∀ d ∈ next?, isNameChar d = false) :
    EndsBefore (some t.kind) t.text next? := by
  cases kind : t.kind with
  | name =>
      rw [kind] at h
      rcases named kind with goesOn | stops
      · have := h c rfl
        simp [goesOn] at this
      · exact stops
  | string => trivial
  | punct => exact fun slash => absurd slash notSlash

/-! ## Cutting and joining chains -/

namespace Lexed

variable {start : Nat} {text left right : Text} {tokens later : List Token}
  {next? next?' : Option Char}

theorem append (first : Lexed start left tokens (right.head?.or next?))
    (second : Lexed (start + left.length) right later next?) :
    Lexed start (left ++ right) (tokens ++ later) next? := by
  generalize follow : right.head?.or next? = follow? at first
  induction first with
  | nil => simpa using second
  | @gap start u text tokens _ lexeme ends _ ih =>
      rw [List.append_assoc]
      refine .gap lexeme ?_ (ih (by simpa [Nat.add_assoc] using second) follow)
      rw [List.head?_append, Option.or_assoc, follow]
      exact ends
  | @token start kind c u text tokens _ lexeme ends _ ih =>
      rw [List.append_assoc]
      refine .token lexeme ?_
        (ih (by rwa [List.length_append, ← Nat.add_assoc] at second) follow)
      rw [List.head?_append, Option.or_assoc, follow]
      exact ends

theorem split (h : Lexed start text (tokens ++ later) next?) :
    ∃ left right, text = left ++ right ∧
      Lexed start left tokens (right.head?.or next?) ∧
      Lexed (start + left.length) right later next? ∧ (tokens = [] → left = []) ∧
      ∀ t ∈ tokens.getLast?, t.stop = start + left.length := by
  generalize all : tokens ++ later = whole at h
  induction h generalizing tokens with
  | @nil start =>
      obtain ⟨rfl, rfl⟩ := List.append_eq_nil_iff.1 all
      exact ⟨[], [], rfl, .nil, .nil, by simp, by simp⟩
  | @gap start u text whole _ lexeme ends chain ih =>
      cases tokens with
      | nil =>
          subst all
          exact ⟨[], u ++ text, rfl, .nil, .gap lexeme ends chain, by simp, by simp⟩
      | cons t tokens =>
          obtain ⟨left, right, rfl, first, second, empty, stop⟩ := ih all
          refine ⟨u ++ left, right, by simp, .gap lexeme ?_ first, ?_, by simp, ?_⟩
          · rwa [List.head?_append, Option.or_assoc] at ends
          · rwa [List.length_append, ← Nat.add_assoc]
          · rwa [List.length_append, ← Nat.add_assoc]
  | @token start kind c u text whole _ lexeme ends chain ih =>
      cases tokens with
      | nil =>
          subst all
          exact ⟨[], c :: u ++ text, rfl, .nil, .token lexeme ends chain,
            by simp, by simp⟩
      | cons t tokens =>
          obtain ⟨rfl, rest⟩ := List.cons.inj all
          obtain ⟨left, right, rfl, first, second, empty, stop⟩ := ih rest
          refine ⟨c :: u ++ left, right, by simp, .token lexeme ?_ first,
            ?_, by simp, ?_⟩
          · rwa [List.head?_append, Option.or_assoc] at ends
          · rwa [List.length_append, ← Nat.add_assoc]
          · intro t ht
            rw [List.length_append, ← Nat.add_assoc]
            cases tokens with
            | nil =>
                obtain rfl := empty rfl
                obtain rfl : _ = t := by simpa using ht
                rfl
            | cons s tokens => exact stop t (by simpa using ht)

theorem firstToken {t : Token} (h : Lexed start text (t :: tokens) next?) :
    ∃ left right, text = left ++ (t.text ++ right) ∧ t.start = start + left.length ∧
      Lexed start left [] (some t.first) ∧
      Lexed t.start (t.text ++ right) (t :: tokens) next? := by
  generalize all : t :: tokens = whole at h
  induction h with
  | nil => simp at all
  | @gap start u text whole _ lexeme ends chain ih =>
      obtain ⟨left, right, rfl, position, gap, here⟩ := ih all
      refine ⟨u ++ left, right, by simp, ?_, .gap lexeme ?_ gap, all ▸ here⟩
      · rw [position, List.length_append, Nat.add_assoc]
      · simpa [Token.text, List.head?_append, Option.or_assoc] using ends
  | @token start kind c u text whole _ lexeme ends chain ih =>
      obtain ⟨rfl, rfl⟩ := List.cons.inj all
      exact ⟨[], text, rfl, rfl, .nil, .token lexeme ends chain⟩

theorem tokens_eq_nil (h : Lexed start text tokens next?) (empty : text = []) :
    tokens = [] := by
  cases h with
  | nil => rfl
  | gap lexeme => exact absurd (List.append_eq_nil_iff.1 empty).1 lexeme.ne_nil
  | token => simp at empty

/-- Another character can follow a chain if its last lexeme ends before that one
too.  A last token with a gap behind it does so anyway. -/
private theorem reseat_touching (h : Lexed start text tokens next?)
    (gaps : ∀ u, Lexeme none u → EndsBefore none u next? → EndsBefore none u next?')
    (last : ∀ t ∈ tokens.getLast?, t.stop = start + text.length →
      EndsBefore (some t.kind) t.text next? → EndsBefore
      (some t.kind) t.text next?') :
    Lexed start text tokens next?' := by
  induction h with
  | nil => exact .nil
  | @gap start u text tokens next? lexeme ends _ ih =>
      refine .gap lexeme ?_ (ih gaps ?_)
      · cases text with
        | nil => exact gaps u lexeme (by simpa using ends)
        | cons c text => simpa using ends
      · intro t mem touches
        exact last t mem (by rw [touches, List.length_append, Nat.add_assoc])
  | @token start kind c u text tokens next? lexeme ends chain ih =>
      refine .token lexeme ?_ (ih gaps ?_)
      · cases text with
        | nil =>
            obtain rfl := chain.tokens_eq_nil rfl
            exact last _ rfl (by simp [Token.stop, Token.text])
              (by simpa [Token.text] using ends)
        | cons d text => simpa using ends
      · intro t mem touches
        refine last t ?_ (by rw [touches, List.length_append, Nat.add_assoc])
        rw [List.getLast?_cons]
        simp [Option.mem_def.1 mem]

theorem reseat (h : Lexed start text tokens next?)
    (gaps : ∀ u, Lexeme none u → EndsBefore none u next? → EndsBefore none u next?')
    (last : ∀ t ∈ tokens.getLast?, EndsBefore (some t.kind) t.text next? →
      EndsBefore (some t.kind) t.text next?') :
    Lexed start text tokens next?' :=
  h.reseat_touching gaps fun t mem _ => last t mem

theorem reseat_quote {c q : Char} (h : Lexed start text tokens (some c))
    (inLine : c ≠ '\n') (quoted : isQuote q = true) :
    Lexed start text tokens (some q) := by
  have notSlash : q ≠ '/' ∧ q ≠ '*' := by
    constructor <;> rintro rfl <;> exact absurd quoted (by decide)
  apply h.reseat
  · intro u _ ends comment
    exact absurd (ends comment c rfl) inLine
  · intro t _ _
    cases t.kind with
    | name =>
        intro d hd
        cases hd
        exact isNameChar_of_isQuote quoted
    | string => trivial
    | punct =>
        intro _ d hd
        cases hd
        exact notSlash

/-- A chain goes on as before another character if its last token does not become
longer there. -/
theorem reseat_before {c : Char} (h : Lexed start text tokens (some c))
    (inLine : c ≠ '\n')
    (last : ∀ t ∈ tokens.getLast?, t.stop = start + text.length →
      EndsBefore (some t.kind) t.text (some c) → EndsBefore
      (some t.kind) t.text next?') :
    Lexed start text tokens next?' := by
  apply h.reseat_touching
  · intro u _ ends comment
    exact absurd (ends comment c rfl) inLine
  · exact last

end Lexed

/-! ## White space at the end of a chain -/

/-- A lexeme that ends in white space is a white space character or a line
comment. -/
theorem Lexeme.eq_blank_or_comment {kind? : Option TokenKind} {u : Text}
    {c : Char} (lexeme : Lexeme kind? u) (last : u.getLast? = some c)
    (blank : isBlank c = true) :
    kind? = none ∧ (u = [c] ∨ u.take 2 = ['/', '/']) := by
  cases lexeme with
  | blank _ => simp_all
  | lineComment _ => simp
  | blockComment closed =>
      rw [List.getLast?_cons, List.getLast?_cons, getLast?_of_commentEnd? closed]
        at last
      obtain rfl : '/' = c := by simpa using last
      exact absurd blank (by decide)
  | string quoted closed =>
      rw [List.getLast?_cons, getLast?_of_closing? closed] at last
      obtain rfl := Option.some.inj last
      simp only [isQuote, Bool.or_eq_true, beq_iff_eq] at quoted
      rcases quoted with (rfl | rfl) | rfl <;> exact absurd blank (by decide)
  | name named =>
      have := named c (List.mem_of_getLast? last)
      rw [isNameChar_of_isBlank blank] at this
      contradiction
  | punct notBlank => simp_all

/-- A white space character at the end of a chain is a lexeme of its own, unless a
comment runs over it. -/
theorem Lexed.dropBlank {start : Nat} {text : Text} {tokens : List Token}
    {c d : Char} (h : Lexed start (text ++ [c]) tokens (some d))
    (blank : isBlank c = true) (inLine : d ≠ '\n') :
    Lexed start text tokens (some c) := by
  generalize all : text ++ [c] = whole at h
  generalize next : some d = next? at h
  induction h generalizing text with
  | nil => simp at all
  | @gap start u later tokens _ lexeme ends chain ih =>
      subst next
      rcases List.eq_nil_or_concat later with rfl | ⟨later, e, rfl⟩
      · rw [List.append_nil] at all
        obtain ⟨-, alone | comment⟩ :=
          lexeme.eq_blank_or_comment (by rw [← all, List.getLast?_concat]) blank
        · obtain rfl : text = [] := by simpa [alone] using all
          rw [chain.tokens_eq_nil rfl]
          exact .nil
        · exact absurd (ends comment d rfl) inLine
      · rw [List.concat_eq_append, ← List.append_assoc] at all
        obtain ⟨rfl, same⟩ := List.append_inj' all rfl
        obtain rfl := List.singleton_inj.1 same
        refine .gap lexeme ?_ (ih (by simp) rfl)
        cases later <;> simpa using ends
  | @token start kind e u later tokens _ lexeme ends chain ih =>
      subst next
      rcases List.eq_nil_or_concat later with rfl | ⟨later, f, rfl⟩
      · rw [List.append_nil] at all
        obtain ⟨named, -⟩ :=
          lexeme.eq_blank_or_comment (by rw [← all, List.getLast?_concat]) blank
        cases named
      · rw [List.concat_eq_append, ← List.append_assoc] at all
        obtain ⟨rfl, same⟩ := List.append_inj' all rfl
        obtain rfl := List.singleton_inj.1 same
        refine .token lexeme ?_ (ih (by simp) rfl)
        cases later <;> simpa using ends

theorem Lexed.dropBlanks {start : Nat} {text blanks : Text}
    {tokens : List Token} {d : Char}
    (h : Lexed start (text ++ blanks) tokens (some d))
    (blank : ∀ c ∈ blanks, isBlank c = true ∧ c ≠ '\n') (inLine : d ≠ '\n') :
    Lexed start text tokens ((blanks ++ [d]).head?) := by
  induction blanks using List.reverseRecOn generalizing d with
  | nil => simpa using h
  | append_singleton blanks c ih =>
      rw [← List.append_assoc] at h
      have shorter := h.dropBlank (blank c (by simp)).1 inLine
      have := ih shorter (fun e he => blank e (by simp [he])) (blank c (by simp)).2
      cases blanks <;> simpa using this

/-! ## Chains at other positions -/

def Token.bare (t : Token) : Token := { t with start := 0 }

theorem Lexed.move {start : Nat} {text : Text} {tokens : List Token}
    {next? : Option Char} (h : Lexed start text tokens next?) (start' : Nat) :
    ∃ tokens', Lexed start' text tokens' next? ∧
      tokens'.map Token.bare = tokens.map Token.bare := by
  induction h generalizing start' with
  | nil => exact ⟨[], .nil, rfl⟩
  | gap lexeme ends _ ih =>
      obtain ⟨tokens', chain, same⟩ := ih (start' + _)
      exact ⟨tokens', .gap lexeme ends chain, same⟩
  | @token _ kind c u _ _ _ lexeme ends _ ih =>
      obtain ⟨tokens', chain, same⟩ := ih (start' + _)
      exact ⟨⟨kind, c, u, start', lexeme.single⟩ :: tokens',
        .token lexeme ends chain, by simp [same, Token.bare]⟩

end Showcase.Registry

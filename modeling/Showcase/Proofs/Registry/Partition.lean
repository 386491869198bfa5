import Mathlib.Data.List.Infix
import Showcase.Failure
import Showcase.Proofs.Registry.Reading

/-!
# Texts split into tokens

The tokens of a text and the gaps between them are all of it (`Partition`).  The
tokenizer finds this split if there is one, and otherwise comes to a literal or
a comment without an end (`tokenize_partition`).
-/

namespace Showcase.Registry

/-! ## What a split is -/

/-- What may stand behind the opening quote `q` before the literal ends: pairs
that start with a backslash, and other characters than the quote. -/
inductive LiteralBody (q : Char) : Text → Prop where
  | nil : LiteralBody q []
  | plain {c : Char} {body : Text} (notEscape : c ≠ '\\') (notQuote : c ≠ q)
      (inLine : c = '\n' → q = '\x60') (later : LiteralBody q body) :
      LiteralBody q (c :: body)
  | escape (c : Char) {body : Text} (later : LiteralBody q body) :
      LiteralBody q ('\\' :: c :: body)

/-- White space and comments.  A line comment runs up to a line feed or, in the
`last` gap of a text, up to its end. -/
inductive Filler (last : Prop) : Text → Prop where
  | nil : Filler last []
  | blank {c : Char} {gap : Text} (blank : isBlank c = true) (later :
      Filler last gap) :
      Filler last (c :: gap)
  | lineComment {body gap : Text} (oneLine : '\n' ∉ body) (later :
      Filler last ('\n' :: gap)) :
      Filler last ('/' :: '/' :: body ++ '\n' :: gap)
  | lastComment {body : Text} (atEnd : last) (oneLine : '\n' ∉ body) :
      Filler last ('/' :: '/' :: body)
  | blockComment {body gap : Text} (first : ¬['*', '/'] <:+: body ++ ['*'])
      (later : Filler last gap) :
      Filler last ('/' :: '*' :: body ++ '*' :: '/' :: gap)

/-- From the end of the last token `before` a gap to the start of the first
token `after` it, or up to `stop` if there is none. -/
def gapBetween (before after : List Token) (stop : Nat) : Span :=
  ⟨(before.getLast?.map Token.stop).getD 0, (after.head?.map Token.start).getD stop⟩

/-- The first `stop` characters of a text, split into tokens. -/
structure Partition (text : Text) (stop : Nat) (tokens : List Token) : Prop where
  inside : stop ≤ text.length
  nonempty : ∀ t ∈ tokens, t.start < t.stop ∧ t.stop ≤ stop
  ordered : tokens.Pairwise fun t t' => t.stop ≤ t'.start
  slices : ∀ t ∈ tokens, t.span.slice text = t.text
  gaps : ∀ before after, tokens = before ++ after →
    Filler ((gapBetween before after stop).stop = text.length)
      ((gapBetween before after stop).slice text)
  names : ∀ t ∈ tokens, t.kind = .name → (∀ c ∈ t.text, isNameChar c = true) ∧
    (∀ c ∈ (text.take t.start).getLast?, isNameChar c = false) ∧
      ∀ c ∈ (text.drop t.stop).head?, isNameChar c = false
  strings : ∀ t ∈ tokens, t.kind = .string → isQuote t.first = true ∧
    ∃ body, t.rest = body ++ [t.first] ∧ LiteralBody t.first body
  puncts : ∀ t ∈ tokens, t.kind = .punct → t.rest = [] ∧ isBlank t.first = false ∧
    isQuote t.first = false ∧ isNameChar t.first = false ∧
      (t.first = '/' → ∀ c ∈ (text.drop t.stop).head?, c ≠ '/' ∧ c ≠ '*')

/-- A text that starts with a literal or a comment without an end. -/
inductive Unclosed : Fault → Text → Prop where
  | literal {q : Char} {rest : Text} (quoted : isQuote q = true)
      (endless : ∀ body after, rest = body ++ q :: after → ¬LiteralBody q body) :
      Unclosed .unterminatedString (q :: rest)
  | comment {rest : Text} (endless : ¬['*', '/'] <:+: rest) :
      Unclosed .unterminatedComment ('/' :: '*' :: rest)

/-! ## Ends of literals and comments -/

section Ends

variable {q : Char} {text body : Text} {n : Nat}

theorem LiteralBody.closing?_append (h : LiteralBody q body)
    (notEscape : q ≠ '\\') (after : Text) :
    closing? q (body ++ q :: after) = some (body.length + 1) := by
  induction h with
  | nil => rw [List.nil_append, closing?_cons _ notEscape, if_pos rfl,
      List.length_nil]
  | @plain c body notEscape' notQuote inLine _ ih =>
      have goesOn : ¬(c = '\n' ∧ q ≠ '\x60') := fun broken =>
        broken.2 (inLine broken.1)
      rw [List.cons_append, closing?_cons _ notEscape', if_neg notQuote,
        if_neg goesOn, ih]
      rfl
  | escape c _ ih =>
      rw [List.cons_append, List.cons_append, closing?_escape, ih]
      rfl

private theorem closing?_eq_some_iff (notEscape : q ≠ '\\') :
    closing? q text = some n ↔
      ∃ body after, text = body ++ q :: after ∧ n = body.length + 1 ∧
      LiteralBody q body := by
  constructor
  · intro h
    fun_induction closing? q text generalizing n with
    | case1 => simp at h
    | case2 => simp at h
    | case3 c rest ih =>
        obtain ⟨m, closed, rfl⟩ := Option.map_eq_some_iff.1 h
        obtain ⟨body, after, rfl, rfl, isBody⟩ := ih closed
        exact ⟨'\\' :: c :: body, after, rfl, rfl, .escape c isBody⟩
    | case4 rest =>
        cases h
        exact ⟨[], rest, rfl, rfl, .nil⟩
    | case5 => simp at h
    | case6 c rest lone pair notQuote inLine ih =>
        obtain ⟨m, closed, rfl⟩ := Option.map_eq_some_iff.1 h
        obtain ⟨body, after, rfl, rfl, isBody⟩ := ih closed
        have notEscape' : c ≠ '\\' := fun escape =>
          pair _ _ escape (List.cons_head_tail (by simp)).symm
        have goesOn : c = '\n' → q = '\x60' := fun broken =>
          Classical.byContradiction fun other => inLine ⟨broken, other⟩
        exact ⟨c :: body, after, rfl, rfl, .plain notEscape' notQuote goesOn isBody⟩
  · rintro ⟨body, after, rfl, rfl, isBody⟩
    exact isBody.closing?_append notEscape after

private theorem ne_backslash_of_isQuote (quoted : isQuote q = true) : q ≠ '\\' := by
  rintro rfl
  exact absurd quoted (by decide)

private theorem commentEnd?_eq_some_iff :
    commentEnd? text = some n ↔
      ∃ body after, text = body ++ '*' :: '/' :: after ∧ n = body.length + 2 ∧
        ¬['*', '/'] <:+: body ++ ['*'] := by
  constructor
  · intro h
    fun_induction commentEnd? text generalizing n with
    | case1 after =>
        cases h
        exact ⟨[], after, rfl, rfl, by simp [List.infix_cons_iff]⟩
    | case2 c rest notEnd ih =>
        obtain ⟨m, closed, rfl⟩ := Option.map_eq_some_iff.1 h
        obtain ⟨body, after, rfl, rfl, first⟩ := ih closed
        refine ⟨c :: body, after, rfl, rfl, ?_⟩
        rw [List.cons_append, List.infix_cons_iff, not_or]
        refine ⟨fun starts => ?_, first⟩
        obtain ⟨star, slash⟩ := List.cons_prefix_cons.1 starts
        cases body with
        | nil => simp at slash
        | cons d body =>
            obtain ⟨rfl, -⟩ := List.cons_prefix_cons.1 slash
            exact notEnd _ star.symm rfl
    | case3 => simp at h
  · rintro ⟨body, after, rfl, rfl, first⟩
    induction body with
    | nil => rfl
    | cons c body ih =>
        rw [List.cons_append, List.infix_cons_iff, not_or] at first
        rw [List.cons_append, commentEnd?_cons, ih first.2]
        · rfl
        · rintro later rfl starts
          cases body with
          | nil => simp at starts
          | cons d body =>
              obtain ⟨rfl, -⟩ := List.cons.inj starts
              exact first.1 ⟨body ++ ['*'], rfl⟩

private theorem commentEnd?_eq_none_iff :
    commentEnd? text = none ↔ ¬['*', '/'] <:+: text := by
  fun_induction commentEnd? text with
  | case1 after => simpa using ⟨[], after, rfl⟩
  | case2 c rest notEnd ih =>
      rw [Option.map_eq_none_iff, ih, List.infix_cons_iff, not_or, iff_and_self]
      rintro - starts
      obtain ⟨rfl, slash⟩ := List.cons_prefix_cons.1 starts
      obtain ⟨later, rfl⟩ := slash
      exact notEnd later rfl rfl
  | case3 => simp

/-- Where no piece can be taken, a literal or a comment has no end. -/
private theorem piece_eq_error_iff {c : Char} {rest : Text} {fault : Fault} :
    piece c rest = .error fault ↔ Unclosed fault (c :: rest) := by
  have closes (quoted : isQuote c = true) : closing? c rest = none ↔
      ∀ body after, rest = body ++ c :: after → ¬LiteralBody c body := by
    rw [Option.eq_none_iff_forall_ne_some]
    constructor
    · rintro none body after rfl isBody
      exact none _ (isBody.closing?_append (ne_backslash_of_isQuote quoted) after)
    · intro none n closed
      obtain ⟨body, after, shape, -, isBody⟩ :=
        (closing?_eq_some_iff (ne_backslash_of_isQuote quoted)).1 closed
      exact none body after shape isBody
  constructor
  · -- a piece fails only where a comment or a literal has opened
    intro h
    unfold piece at h
    split at h
    · simp at h
    split at h
    · simp at h
    split at h
    next _ _ opening =>
      obtain ⟨rfl, star⟩ := opening
      obtain ⟨more, rfl⟩ := List.head?_eq_some_iff.1 star
      split at h
      · simp at h
      next endless =>
        cases h
        exact .comment (commentEnd?_eq_none_iff.1 endless)
    split at h
    next _ _ _ quoted =>
      split at h
      · simp at h
      next endless =>
        cases h
        exact .literal quoted ((closes quoted).1 endless)
    split at h <;> simp at h
  · intro h
    cases h with
    | literal quoted endless =>
        have notBlank : isBlank c = false := by
          simp only [isQuote, Bool.or_eq_true, beq_iff_eq] at quoted
          rcases quoted with (rfl | rfl) | rfl <;> decide
        have notSlash : c ≠ '/' := by
          rintro rfl
          exact absurd quoted (by decide)
        simp [piece, notBlank, notSlash, quoted, (closes quoted).2 endless]
    | @comment rest endless =>
        have notBlank : isBlank '/' = false := by decide
        simp [piece, notBlank, commentEnd?_eq_none_iff.2 endless]

end Ends

/-! ## Gaps -/

private theorem filler_of_lexed {last : Prop} {start : Nat} {gap : Text}
    {next? : Option Char} (h : Lexed start gap [] next?)
    (inLine : ∀ c ∈ next?, c ≠ '\n') (atEnd : next? = none → last) :
    Filler last gap := by
  generalize none' : ([] : List Token) = tokens at h
  induction h with
  | nil => exact .nil
  | @gap start u gap tokens next? lexeme ends _ ih =>
      have later := ih inLine atEnd none'
      cases lexeme with
      | blank blank => exact .blank blank later
      | lineComment oneLine =>
          cases gap with
          | nil =>
              rw [List.append_nil]
              refine .lastComment (atEnd ?_) oneLine
              cases next? with
              | none => rfl
              | some c => exact absurd (ends rfl c rfl) (inLine c rfl)
          | cons c gap =>
              obtain rfl : c = '\n' := ends rfl c rfl
              exact .lineComment oneLine later
      | blockComment closed =>
          obtain ⟨body, after, rfl, length, first⟩ :=
            commentEnd?_eq_some_iff.1 closed
          obtain rfl : after = [] := by
            simp only [List.length_append, List.length_cons] at length
            exact List.length_eq_zero_iff.1 (by omega)
          have comment := Filler.blockComment first later
          simpa using comment
  | token => simp at none'

theorem Filler.lexed {last : Prop} {gap : Text} {next? : Option Char}
    (h : Filler last gap) (atEnd : last → next? = none) (start : Nat) :
    Lexed start gap [] next? := by
  induction h generalizing start with
  | nil => exact .nil
  | blank blank _ ih => exact .gap (.blank blank) (by simp [EndsBefore]) (ih _)
  | lineComment oneLine _ ih =>
      exact .gap (.lineComment oneLine) (by simp [EndsBefore]) (ih _)
  | @lastComment body last oneLine =>
      have comment : Lexed start ('/' :: '/' :: body ++ []) [] next? :=
        .gap (.lineComment oneLine) (by simp [EndsBefore, atEnd last]) .nil
      rwa [List.append_nil] at comment
  | @blockComment body gap first _ ih =>
      have closed : commentEnd? (body ++ ['*', '/']) =
          some (body ++ ['*', '/']).length :=
        commentEnd?_eq_some_iff.2 ⟨body, [], rfl, by simp, first⟩
      have comment := Lexed.gap (.blockComment closed) (by simp [EndsBefore])
        (ih (start + _))
      simpa using comment

/-! ## Tokens -/

private theorem Lexeme.notNamed_of_ends {kind? : Option TokenKind} {u : Text}
    {c : Char} (h : Lexeme kind? u) (ends : EndsBefore kind? u (some c))
    (named : isNameChar c = true) :
    ∀ d ∈ u.getLast?, isNameChar d = false := by
  intro d last
  cases h with
  | @blank e blank =>
      obtain rfl : e = d := by simpa using last
      exact isNameChar_of_isBlank blank
  | lineComment _ =>
      obtain rfl := ends rfl c rfl
      exact absurd named (by decide)
  | blockComment closed =>
      rw [List.getLast?_cons, List.getLast?_cons, getLast?_of_commentEnd? closed]
        at last
      obtain rfl : '/' = d := by simpa using last
      decide
  | string quoted closed =>
      rw [List.getLast?_cons, getLast?_of_closing? closed] at last
      obtain rfl := Option.some.inj last
      exact isNameChar_of_isQuote quoted
  | name _ => simp [ends c rfl] at named
  | punct _ _ notNamed =>
      obtain rfl := by simpa using last
      exact notNamed

private theorem Lexed.notNamed_of_follows {start : Nat} {text : Text}
    {tokens : List Token} {c : Char} (h : Lexed start text tokens (some c))
    (named : isNameChar c = true) :
    ∀ d ∈ text.getLast?, isNameChar d = false := by
  generalize follow : some c = next? at h
  have last {u text : Text} {kind? : Option TokenKind} (lexeme : Lexeme kind? u)
      (ends : EndsBefore kind? u (text.head?.or (some c)))
      (ih : ∀ d ∈ text.getLast?, isNameChar d = false) :
      ∀ d ∈ (u ++ text).getLast?, isNameChar d = false := by
    cases text with
    | nil => simpa using lexeme.notNamed_of_ends ends named
    | cons e text => simpa [List.getLast?_append, List.getLast?_cons] using ih
  induction h with
  | nil => simp
  | gap lexeme ends _ ih =>
      subst follow
      exact last lexeme ends (ih rfl)
  | token lexeme ends _ ih =>
      subst follow
      exact last lexeme ends (ih rfl)

/-! ## Slices -/

private theorem take_eq_append_slice {text : Text} {m n : Nat} (ordered : m ≤ n) :
    text.take n = text.take m ++ Span.slice ⟨m, n⟩ text := by
  rw [Span.slice, ← Nat.min_eq_left ordered, ← List.take_take,
    Nat.min_eq_left ordered]
  exact (List.take_append_drop m _).symm

private theorem drop_eq_slice_append {text : Text} {m n : Nat} (ordered : m ≤ n)
    (inside : n ≤ text.length) :
    text.drop m = Span.slice ⟨m, n⟩ text ++ text.drop n := by
  have whole : text.drop m = (text.take n ++ text.drop n).drop m := by
    rw [List.take_append_drop]
  rw [whole, List.drop_append_of_le_length (by rwa [List.length_take_of_le inside])]
  rfl

/-! ## Chains are splits -/

theorem slice_between (left gap right : Text) :
    Span.slice ⟨left.length, left.length + gap.length⟩ (left ++ (gap ++ right)) =
      gap := by
  rw [Span.slice, ← List.length_append, ← List.append_assoc, List.take_left,
    List.drop_left]

private theorem Lexed.filler_between {front back : Text}
    {before after : List Token} (h : Lexed 0 front (before ++ after) back.head?)
    (inLine : ∀ c ∈ back.head?, c ≠ '\n') :
    Filler ((gapBetween before after front.length).stop = (front ++ back).length)
      ((gapBetween before after front.length).slice (front ++ back)) := by
  obtain ⟨left, right, rfl, -, behind, empty, stop⟩ := h.split
  rw [Nat.zero_add] at behind stop
  have start : (before.getLast?.map Token.stop).getD 0 = left.length := by
    cases last : before.getLast? with
    | none =>
        rw [List.getLast?_eq_none_iff] at last
        rw [empty last]
        rfl
    | some t => exact stop t last
  cases after with
  | nil =>
      rw [gapBetween, start, List.head?_nil, Option.map_none, Option.getD_none,
        List.length_append, List.append_assoc, slice_between]
      refine filler_of_lexed behind inLine fun none => ?_
      rw [List.head?_eq_none_iff.1 none, List.append_nil, List.length_append]
  | cons t after =>
      obtain ⟨gap, rest, rfl, position, chain, here⟩ := behind.firstToken
      rw [gapBetween, start, List.head?_cons, Option.map_some, Option.getD_some,
        position, List.append_assoc, List.append_assoc, slice_between]
      refine filler_of_lexed chain ?_ (by simp)
      rintro c ⟨⟩
      exact (here.genuine t (by simp)).first_ne_newline

private theorem Lexed.endsBefore {t : Token} {rest : Text} {tokens : List Token}
    {next? : Option Char}
    (h : Lexed t.start (t.text ++ rest) (t :: tokens) next?) :
    EndsBefore (some t.kind) t.text (rest.head?.or next?) := by
  generalize shape : t.text ++ rest = text at h
  generalize position : t.start = start at h
  cases h with
  | @gap _ u _ _ _ lexeme _ later =>
      have behind := (later.bounds t (by simp)).1
      have some := List.length_pos_iff.2 lexeme.ne_nil
      omega
  | token lexeme ends _ =>
      obtain rfl := List.append_cancel_left shape
      exact ends

private theorem Lexed.exists_around {front : Text} {tokens : List Token}
    {next? : Option Char} {t : Token} (h : Lexed 0 front tokens next?)
    (mem : t ∈ tokens) :
    ∃ left rest before, front = left ++ (t.text ++ rest) ∧ t.start = left.length ∧
      t.Genuine ∧
      Lexed 0 left before (some t.first) ∧
        EndsBefore (some t.kind) t.text (rest.head?.or next?) := by
  have genuine := h.genuine t mem
  obtain ⟨before, after, rfl⟩ := List.append_of_mem mem
  obtain ⟨left, rest, rfl, position, first, here⟩ := h.cutBefore
  rw [Nat.zero_add] at position
  exact ⟨left, rest, before, rfl, position, genuine, first, here.endsBefore⟩

private theorem take_drop_around {left : Text} {t : Token} (rest back : Text)
    (position : t.start = left.length) :
    (left ++ (t.text ++ rest) ++ back).take t.start = left ∧
      (left ++ (t.text ++ rest) ++ back).drop t.stop = rest ++ back := by
  have stop : t.stop = (left ++ t.text).length := by
    rw [Token.stop, position, List.length_append]
  constructor
  · rw [position, List.append_assoc, List.take_left]
  · rw [stop, ← List.append_assoc left, List.append_assoc (left ++ t.text),
      List.drop_left]

/-- A chain of lexemes is a split, with whatever stands behind it. -/
private theorem partition_of_lexed {front back : Text} {tokens : List Token}
    (h : Lexed 0 front tokens back.head?) (inLine : ∀ c ∈ back.head?, c ≠ '\n') :
    Partition (front ++ back) front.length tokens where
  inside := by simp
  nonempty t mem := by
    have bounds := h.bounds t mem
    exact ⟨t.start_lt_stop, by omega⟩
  ordered := h.pairwise
  slices t mem := by
    obtain ⟨left, rest, -, rfl, position, -, -, -⟩ := h.exists_around mem
    have slice := slice_between left t.text (rest ++ back)
    rwa [← position, ← List.append_assoc t.text, ← List.append_assoc left] at slice
  gaps before after split := Lexed.filler_between (split ▸ h) inLine
  names t mem named := by
    obtain ⟨left, rest, _, rfl, position, genuine, first, ends⟩ :=
      h.exists_around mem
    obtain ⟨taken, dropped⟩ := take_drop_around rest back position
    rw [taken, dropped, List.head?_append]
    rw [named] at ends
    rw [Token.Genuine, named, Token.text] at genuine
    have all : ∀ c ∈ t.text, isNameChar c = true := by
      cases genuine with
      | name all => exact all
    exact ⟨all, first.notNamed_of_follows (all t.first (by simp [Token.text])),
      ends⟩
  strings t mem string := by
    have genuine := h.genuine t mem
    refine ⟨genuine.quoted string, ?_⟩
    rw [Token.Genuine, string, Token.text] at genuine
    cases genuine with
    | string quoted closed =>
        obtain ⟨body, after, shape, length, isBody⟩ :=
          (closing?_eq_some_iff (ne_backslash_of_isQuote quoted)).1 closed
        obtain rfl : after = [] := by
          rw [shape, List.length_append, List.length_cons] at length
          exact List.length_eq_zero_iff.1 (by omega)
        exact ⟨body, shape, isBody⟩
  puncts t mem punct := by
    obtain ⟨left, rest, -, rfl, position, genuine, -, ends⟩ := h.exists_around mem
    obtain ⟨-, dropped⟩ := take_drop_around rest back position
    rw [dropped, List.head?_append]
    rw [punct] at ends
    have single := Token.text_of_punct punct
    rw [Token.Genuine, punct, single] at genuine
    cases genuine with
    | punct notBlank notQuote notNamed =>
        refine ⟨(List.cons.inj single).2, notBlank, notQuote, notNamed,
          fun slash => ends ?_⟩
        rw [single, slash]

/-! ## Splits are chains -/

namespace Partition

variable {text : Text} {stop : Nat} {tokens : List Token} {t : Token}

theorem dropLast (h : Partition text stop (tokens ++ [t])) :
    Partition text t.start tokens where
  inside := by
    have := h.nonempty t (by simp)
    have := h.inside
    omega
  nonempty u mem := by
    obtain ⟨-, -, apart⟩ := List.pairwise_append.1 h.ordered
    exact ⟨(h.nonempty u (by simp [mem])).1, apart u mem t (by simp)⟩
  ordered := (List.pairwise_append.1 h.ordered).1
  slices u mem := h.slices u (by simp [mem])
  gaps before after split := by
    have gap := h.gaps before (after ++ [t]) (by rw [split, List.append_assoc])
    cases after <;> exact gap
  names u mem := h.names u (by simp [mem])
  strings u mem := h.strings u (by simp [mem])
  puncts u mem := h.puncts u (by simp [mem])

theorem genuine (h : Partition text stop tokens) (mem : t ∈ tokens) :
    t.Genuine := by
  rw [Token.Genuine]
  cases kind : t.kind with
  | name => exact .name (h.names t mem kind).1
  | string =>
      obtain ⟨quoted, body, rest, isBody⟩ := h.strings t mem kind
      refine .string quoted ?_
      rw [rest, isBody.closing?_append (ne_backslash_of_isQuote quoted),
        List.length_append]
      rfl
  | punct =>
      obtain ⟨single, notBlank, notQuote, notNamed, -⟩ := h.puncts t mem kind
      rw [Token.text, single]
      exact .punct notBlank notQuote notNamed

private theorem endsBefore (h : Partition text stop tokens) (mem : t ∈ tokens) :
    EndsBefore (some t.kind) t.text (text.drop t.stop).head? := by
  cases kind : t.kind with
  | name => exact (h.names t mem kind).2.2
  | string => trivial
  | punct =>
      obtain ⟨-, -, -, -, ends⟩ := h.puncts t mem kind
      exact fun slash => ends (List.cons.inj slash).1

theorem lexed (h : Partition text stop tokens) :
    Lexed 0 (text.take stop) tokens (text.drop stop).head? := by
  have atEnd {n : Nat} (last : n = text.length) : (text.drop n).head? = none := by
    rw [last, List.drop_length, List.head?_nil]
  induction tokens using List.reverseRecOn generalizing stop with
  | nil => exact (h.gaps [] [] rfl).lexed atEnd 0
  | append_singleton tokens t ih =>
      obtain ⟨short, within⟩ := h.nonempty t (by simp)
      have inside := h.inside
      have gap : Filler (stop = text.length) (Span.slice ⟨t.stop, stop⟩ text) := by
        have last := h.gaps (tokens ++ [t]) [] (by simp)
        simpa [gapBetween] using last
      have ends := h.endsBefore (t := t) (by simp)
      have first := ih h.dropLast
      have own : Span.slice ⟨t.start, t.stop⟩ text = t.text := h.slices t (by simp)
      rw [drop_eq_slice_append (Nat.le_of_lt short) (by omega), own] at first
      rw [drop_eq_slice_append within inside, List.head?_append] at ends
      rw [take_eq_append_slice within, take_eq_append_slice (Nat.le_of_lt short),
        own, List.append_assoc]
      have start : 0 + (text.take t.start).length = t.start := by
        rw [List.length_take, Nat.zero_add]
        omega
      refine Lexed.append first ?_
      rw [start]
      exact .token (h.genuine (by simp)) ends (gap.lexed atEnd _)

end Partition

/-- The splits of the first characters of a text are the chains of lexemes that
end there. -/
private theorem partition_iff {text : Text} {stop : Nat} {tokens : List Token}
    (inLine : ∀ c ∈ (text.drop stop).head?, c ≠ '\n') :
    Partition text stop tokens ↔
      stop ≤ text.length ∧
      Lexed 0 (text.take stop) tokens (text.drop stop).head? := by
  constructor
  · intro h
    exact ⟨h.inside, h.lexed⟩
  · rintro ⟨inside, lexed⟩
    have split := partition_of_lexed lexed inLine
    rwa [List.take_append_drop, List.length_take_of_le inside] at split

/-! ## Texts without a split -/

/-- A text that is not read is a chain of lexemes up to a literal or comment
without an end. -/
private theorem exists_unclosed {start : Nat} {text : Text} {fault : Fault}
    (h : tokensFrom start text = .error fault) :
    ∃ front back tokens, text = front ++ back ∧
      Lexed start front tokens back.head? ∧
      Unclosed fault back := by
  induction len : text.length
    using Nat.strong_induction_on generalizing start text with
  | _ n ih =>
    subst len
    cases text with
    | nil => simp [tokensFrom] at h
    | cons c text =>
        by_cases blank : isBlank c = true
        · rw [tokensFrom_blank text blank] at h
          obtain ⟨front, back, tokens, rfl, chain, unclosed⟩ := ih _ (by simp) h rfl
          exact ⟨c :: front, back, tokens, rfl,
            .gap (.blank blank) (by simp [EndsBefore]) chain, unclosed⟩
        cases found : piece c text with
        | error fault' =>
            rw [tokensFrom, found] at h
            cases h
            exact ⟨[], c :: text, [], rfl, .nil, piece_eq_error_iff.1 found⟩
        | ok piece =>
            obtain ⟨kind?, n⟩ := piece
            obtain ⟨u, rest, rfl, rfl, lexeme, ends⟩ :=
              lexeme_of_piece found (by simpa using blank)
            rw [← List.cons_append, tokensFrom_lexeme lexeme ends,
              map_eq_error_iff] at h
            obtain ⟨front, back, tokens, rfl, chain, unclosed⟩ := ih _
              (by simp only [List.length_cons, List.length_append]; omega) h rfl
            rw [List.head?_append] at ends
            cases kind? with
            | none => exact ⟨c :: u ++ front, back, tokens, by simp,
                .gap lexeme ends chain, unclosed⟩
            | some kind =>
                exact ⟨c :: u ++ front, back,
                  ⟨kind, c, u, start, lexeme.single⟩ :: tokens, by simp,
                  .token lexeme ends chain, unclosed⟩

theorem Unclosed.first_ne_newline {fault : Fault} {text : Text}
    (h : Unclosed fault text) :
    ∀ c ∈ text.head?, c ≠ '\n' := by
  cases h with
  | literal quoted _ =>
      rintro c ⟨⟩ rfl
      exact absurd quoted (by decide)
  | comment _ =>
      rintro c ⟨⟩
      decide

private theorem Unclosed.tokensFrom_eq {fault : Fault} {text : Text}
    (h : Unclosed fault text) (start : Nat) :
    tokensFrom start text = .error fault := by
  obtain ⟨c, rest, rfl⟩ : ∃ c rest, text = c :: rest := by
    cases h <;> exact ⟨_, _, rfl⟩
  rw [tokensFrom, piece_eq_error_iff.2 h]
  rfl

/-- The tokens of a text are those of its one split into tokens and gaps.  A
text has none if a split of its first characters comes to a literal or a comment
without an end, and only then. -/
theorem tokenize_partition (text : Text) :
    (∀ tokens, tokenize text = .ok tokens ↔ Partition text text.length tokens) ∧
      (∀ fault, tokenize text = .error fault ↔
        ∃ stop tokens, Partition text stop tokens ∧
        Unclosed fault (text.drop stop)) ∧
      ∀ fault, (Failure.registry fault).category? = some .storage := by
  refine ⟨fun tokens => ?_, fun fault => ⟨fun failed => ?_, ?_⟩, fun fault => rfl⟩
  · rw [partition_iff (by simp), List.take_length, List.drop_length]
    simpa using tokenize_eq_ok_iff
  · obtain ⟨front, back, tokens, rfl, chain, unclosed⟩ := exists_unclosed failed
    exact ⟨front.length, tokens, partition_of_lexed chain unclosed.first_ne_newline,
      by rwa [List.drop_left]⟩
  · rintro ⟨stop, tokens, split, unclosed⟩
    have read := split.lexed.tokensFrom_append (text.drop stop)
    rw [List.take_append_drop, unclosed.tokensFrom_eq] at read
    exact read

end Showcase.Registry

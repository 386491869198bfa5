import Showcase.Proofs.Outcome
import Showcase.Proofs.Registry.Lexeme

/-!
# Checked characters

The checked reader is the reader with every access spelled out as a step that
can fail: at a position behind the end of a text or of the tokens, or at a
bracket without a partner.  It has no bounds of its own, so it shows that those
of the reader suffice.  Here it reads the tokens of a text, character by
character (`tokenize_eq`).
-/

namespace Showcase.Registry.Checked

/-- How a step of the checked reader fails: by an access, by a conversion, or by
the fault that it reports. -/
inductive Mishap where
  /-- A position behind the end. -/
  | outOfRange
  /-- A bracket that has no partner. -/
  | unpaired
  /-- A value that a conversion refuses. -/
  | badValue
  /-- A number too large to be converted at all. -/
  | overflow
  | fault (fault : Fault)
  deriving DecidableEq, Repr

def charAt (text : Text) (i : Nat) : Except Mishap Char :=
  match text[i]? with
  | some c => .ok c
  | none => .error .outOfRange

private theorem charAt_eq_ok {text : Text} {i : Nat} (inside : i < text.length) :
    charAt text i = .ok text[i] := by
  simp [charAt, inside]

theorem getElem?_of_drop {α : Type} {xs rest : List α} {i : Nat} {x : α}
    (shape : xs.drop i = x :: rest) : xs[i]? = some x := by
  rw [← List.head?_drop, shape, List.head?_cons]

theorem drop_succ {α : Type} {xs rest : List α} {i : Nat} {x : α}
    (shape : xs.drop i = x :: rest) :
    xs.drop (i + 1) = rest := by
  rw [← List.drop_drop, shape, List.drop_one, List.tail_cons]

theorem charAt_of_drop {text rest : Text} {i : Nat} {c : Char}
    (shape : text.drop i = c :: rest) :
    charAt text i = .ok c := by
  rw [charAt, getElem?_of_drop shape]

theorem slice_eq (text : Text) (i n : Nat) :
    Span.slice ⟨i, i + n⟩ text = (text.drop i).take n := by
  rw [Span.slice, List.drop_take, Nat.add_sub_cancel_left]

/-! ## The pieces of a text -/

/-- The position behind the unescaped quote that closes a literal, searched from
`i` on. -/
def closeFrom (text : Text) (quote : Char) (i : Nat) : Except Mishap Nat :=
  if i < text.length then do
    let c ← charAt text i
    if c = '\\' then closeFrom text quote (i + 2)
    else if c = quote then return i + 1
    else if c = '\n' ∧ quote ≠ '\x60' then .error (.fault .unterminatedString)
    else closeFrom text quote (i + 1)
  else .error (.fault .unterminatedString)
termination_by text.length - i

/-- The position behind the literal that starts at a position. -/
def literalEnd (text : Text) (start : Nat) : Except Mishap Nat := do
  let quote ← charAt text start
  closeFrom text quote (start + 1)

def nameEnd (text : Text) (i : Nat) : Except Mishap Nat :=
  if i < text.length then do
    let c ← charAt text i
    if isNameChar c then nameEnd text (i + 1) else return i
  else return i
termination_by text.length - i

private theorem closeFrom_eq (text : Text) (quote : Char) (i : Nat) :
    closeFrom text quote i =
      match closing? quote (text.drop i) with
      | some n => .ok (i + n)
      | none => .error (.fault .unterminatedString) := by
  induction i using closeFrom.induct text with
  | case1 i inside afterEscape next =>
      rw [closeFrom, if_pos inside, charAt_eq_ok inside, ok_bind,
        List.drop_eq_getElem_cons inside]
      generalize text[i] = c
      by_cases escape : c = '\\'
      · subst escape
        rw [if_pos rfl, afterEscape]
        cases shape : text.drop (i + 1) with
        | nil =>
            have behind : text.drop (i + 2) = [] := by
              rw [← List.drop_drop (i := 1) (j := i + 1), shape, List.drop_nil]
            rw [behind]
            rfl
        | cons d rest =>
            rw [drop_succ shape, closing?_escape]
            cases closing? quote rest with
            | none => rfl
            | some n => simp [Nat.add_comm 2, Nat.add_assoc]
      · rw [if_neg escape, closing?_cons _ escape]
        by_cases close : c = quote
        · rw [if_pos close, if_pos close]
          rfl
        · rw [if_neg close, if_neg close]
          by_cases broken : c = '\n' ∧ quote ≠ '\x60'
          · rw [if_pos broken, if_pos broken]
          · rw [if_neg broken, if_neg broken, next]
            cases closing? quote (text.drop (i + 1)) with
            | none => rfl
            | some n => simp [Nat.add_comm 1, Nat.add_assoc]
  | case2 i outside =>
      rw [closeFrom, if_neg outside, List.drop_eq_nil_of_le (Nat.not_lt.1 outside)]
      rfl

private theorem nameEnd_eq (text : Text) (i : Nat) :
    nameEnd text i = .ok (i + ((text.drop i).takeWhile isNameChar).length) := by
  induction i using nameEnd.induct text with
  | case1 i inside ih =>
      rw [nameEnd, if_pos inside, charAt_eq_ok inside, ok_bind,
        List.drop_eq_getElem_cons inside, List.takeWhile_cons]
      by_cases named : isNameChar text[i] = true
      · rw [if_pos named, if_pos named, ih, List.length_cons]
        congr 1
        omega
      · rw [if_neg named, if_neg named]
        rfl
  | case2 i outside =>
      rw [nameEnd, if_neg outside, List.drop_eq_nil_of_le (Nat.not_lt.1 outside)]
      rfl

/-! ## The tokens of a text -/

/-- The token of some kind that a text holds between two positions. -/
def tokenBetween (text : Text) (kind : TokenKind) (first : Char)
    (i stop : Nat) : Token :=
  .ofKind kind first (Span.slice ⟨i + 1, stop⟩ text) i

def tokensAt (text : Text) (i : Nat) : Except Mishap (List Token) :=
  if i < text.length then do
    let c ← charAt text i
    if isBlank c then tokensAt text (i + 1)
    else if ['/', '/'] <+: text.drop i then
      tokensAt text (i + 1 + ((text.drop (i + 1)).takeWhile (· ≠ '\n')).length)
    else if ['/', '*'] <+: text.drop i then
      match commentEnd? (text.drop (i + 2)) with
      | none => .error (.fault .unterminatedComment)
      | some n => tokensAt text (i + 2 + n)
    else if isQuote c then do
      let stop ← literalEnd text i
      let later ← tokensAt text (max (i + 1) stop)
      return tokenBetween text .string c i stop :: later
    else if isNameChar c then do
      let stop ← nameEnd text (i + 1)
      let later ← tokensAt text (max (i + 1) stop)
      return tokenBetween text .name c i stop :: later
    else do
      let later ← tokensAt text (i + 1)
      return tokenBetween text .punct c i (i + 1) :: later
  else return []
termination_by text.length - i

def tokenize (text : Text) : Except Mishap (List Token) := tokensAt text 0

private theorem prefix_pair_iff {c d first : Char} {rest : Text} :
    [c, d] <+: first :: rest ↔ first = c ∧ rest.head? = some d := by
  cases rest <;> simp [List.cons_prefix_cons, eq_comm]

private theorem tokensFrom_fault {start : Nat} {c : Char} {rest : Text}
    {fault : Fault} (h : piece c rest = .error fault) :
    tokensFrom start (c :: rest) = .error fault := by
  rw [tokensFrom, h]
  rfl

private theorem tokenBetween_eq {text : Text} {kind : TokenKind} {c : Char}
    {i n : Nat} (h : piece c (text.drop (i + 1)) = .ok (some kind, n))
    (later : tokensAt text (i + 1 + n) =
      (tokensFrom (i + 1 + n) (text.drop (i + 1 + n))).mapError .fault) :
    (do
      let later ← tokensAt text (max (i + 1) (i + 1 + n))
      return tokenBetween text kind c i (i + 1 + n) :: later) =
        (tokensFrom i (c :: text.drop (i + 1))).mapError .fault := by
  rw [Nat.max_eq_right (Nat.le_add_right _ n), later, tokensFrom_token h,
    List.drop_drop, tokenBetween, slice_eq]
  cases tokensFrom (i + 1 + n) (text.drop (i + 1 + n)) <;> rfl

private theorem tokensAt_eq (text : Text) (i : Nat) :
    tokensAt text i = (tokensFrom i (text.drop i)).mapError .fault := by
  induction i using tokensAt.induct text with
  | case1 i inside afterBlank afterLine afterBlock afterToken =>
      have shape := List.drop_eq_getElem_cons inside
      generalize text[i] = c at shape
      rw [tokensAt, if_pos inside, charAt_of_drop shape, ok_bind, shape]
      simp only [prefix_pair_iff]
      -- one case for each kind of piece, in the order in which both readers ask
      by_cases blank : isBlank c = true
      · rw [if_pos blank, tokensFrom_blank _ blank, afterBlank]
      rw [if_neg blank]
      by_cases line : c = '/' ∧ (text.drop (i + 1)).head? = some '/'
      · have gap : piece c (text.drop (i + 1)) =
            .ok (none, ((text.drop (i + 1)).takeWhile (· ≠ '\n')).length) := by
          simp only [piece, if_neg blank, if_pos line]
        rw [if_pos line, tokensFrom_gap gap, afterLine, List.drop_drop]
      rw [if_neg line]
      by_cases block : c = '/' ∧ (text.drop (i + 1)).head? = some '*'
      · rw [if_pos block]
        have tail : (text.drop (i + 1)).tail = text.drop (i + 2) := List.tail_drop
        cases close : commentEnd? (text.drop (i + 2)) with
        | none =>
            have opened : piece c (text.drop (i + 1)) =
                .error .unterminatedComment := by
              simp only [piece, if_neg blank, if_neg line, if_pos block, tail,
                close]
            rw [tokensFrom_fault opened]
            rfl
        | some n =>
            have closed : piece c (text.drop (i + 1)) = .ok (none, n + 1) := by
              simp only [piece, if_neg blank, if_neg line, if_pos block, tail,
                close]
            have behind : i + 2 + n = i + 1 + (n + 1) := by omega
            simp only []
            rw [tokensFrom_gap closed, afterBlock, List.drop_drop, behind]
      rw [if_neg block]
      by_cases quoted : isQuote c = true
      · rw [if_pos quoted, literalEnd, charAt_of_drop shape, ok_bind, closeFrom_eq]
        cases close : closing? c (text.drop (i + 1)) with
        | none =>
            have opened : piece c (text.drop (i + 1)) =
                .error .unterminatedString := by
              simp only [piece, if_neg blank, if_neg line, if_neg block,
                if_pos quoted, close]
            rw [tokensFrom_fault opened]
            rfl
        | some n =>
            have closed : piece c (text.drop (i + 1)) = .ok (some .string, n) := by
              simp only [piece, if_neg blank, if_neg line, if_neg block,
                if_pos quoted, close]
            exact tokenBetween_eq closed (by simpa using afterToken (i + 1 + n))
      rw [if_neg quoted]
      by_cases named : isNameChar c = true
      · have run : piece c (text.drop (i + 1)) =
            .ok (some .name,
              ((text.drop (i + 1)).takeWhile isNameChar).length) := by
          simp only [piece, if_neg blank, if_neg line, if_neg block,
            if_neg quoted, if_pos named]
        rw [if_pos named, nameEnd_eq, ok_bind]
        exact tokenBetween_eq run (by simpa using afterToken (i + 1 + _))
      · have single : piece c (text.drop (i + 1)) = .ok (some .punct, 0) := by
          simp only [piece, if_neg blank, if_neg line, if_neg block,
            if_neg quoted, if_neg named]
        rw [if_neg named]
        simpa using tokenBetween_eq single afterBlank
  | case2 i outside =>
      rw [tokensAt, if_neg outside, List.drop_eq_nil_of_le (Nat.not_lt.1 outside),
        tokensFrom]
      rfl

theorem tokenize_eq (text : Text) :
    tokenize text = (Registry.tokenize text).mapError .fault :=
  tokensAt_eq text 0

end Showcase.Registry.Checked

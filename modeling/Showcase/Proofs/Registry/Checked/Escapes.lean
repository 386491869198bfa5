import Showcase.Proofs.Registry.Checked.Characters
import Showcase.Proofs.Registry.Quoting

/-!
# Checked escapes

A literal is decoded character by character.  The accesses behind a backslash
and the conversions of its digits can fail, and each of these failures is a
malformed escape (`decode_eq`).
-/

namespace Showcase.Registry.Checked

/-- What a failure inside a literal is reported as. -/
def Mishap.caught : Mishap → Mishap
  | outOfRange | badValue | overflow => .fault .malformedEscape
  | mishap => mishap

/-- The outcome of a step that gives nothing when the escape is malformed. -/
def orMalformed {α : Type} : Option α → Except Mishap α
  | some a => .ok a
  | none => .error (.fault .malformedEscape)

/-- The first position of a character from `i` on. -/
def positionOf (text : Text) (c : Char) (i : Nat) : Except Mishap Nat :=
  let before := ((text.drop i).takeWhile (· ≠ c)).length
  if i + before < text.length then .ok (i + before) else .error .badValue

/-- The number that some digits name: as many as the width asks for, if it is
given. -/
def hexValue (width? : Option Nat) (digits : Text) : Except Mishap Nat :=
  if digits.isEmpty ∨ width?.any (· ≠ digits.length) then .error .badValue
  else
    match hexNumber? digits with
    | some n => .ok n
    | none => .error .badValue

def pointOf (n : Nat) : Except Mishap CodePoint :=
  match CodePoint.ofNat? n with
  | some point => .ok point
  | none => if n < 0x80000000 then .error .badValue else .error .overflow

def pointNamed (width? : Option Nat) (digits : Text) : Except Mishap CodePoint := do
  let n ← hexValue width? digits
  pointOf n

/-- The code point, if any, that a literal's body holds at position `i`, and the
position behind it. -/
def unitAt (body : Text) (i : Nat) : Except Mishap (Option CodePoint × Nat) := do
  let c ← charAt body i
  if c ≠ '\\' then return (some (.ofChar c), i + 1)
  else
    let escape ← charAt body (i + 1)
    if escape = 'u' ∧ Span.slice ⟨i + 2, i + 2 + 1⟩ body = ['{'] then
      let close ← positionOf body '}' i
      let point ← pointNamed none (Span.slice ⟨i + 3, close⟩ body)
      return (some point, close + 1)
    else if escape = 'u' then
      let point ← pointNamed (some 4) (Span.slice ⟨i + 2, i + 2 + 4⟩ body)
      return (some point, i + 6)
    else if escape = 'x' then
      let point ← pointNamed (some 2) (Span.slice ⟨i + 2, i + 2 + 2⟩ body)
      return (some point, i + 4)
    else if escape = '\n' then return (none, i + 2)
    else return (some (.ofChar (escaped escape)), i + 2)

def pointsAt (body : Text) (i : Nat) : Except Mishap (List CodePoint) :=
  if i < body.length then do
    let (point?, next) ← unitAt body i
    let later ← pointsAt body (max (i + 1) next)
    return point?.toList ++ later
  else return []
termination_by body.length - i

def decode (literal : Text) : Except Mishap Text := do
  let quote ← charAt literal 0
  if quote = '\x60' ∧ hasInterpolation literal then .error (.fault .interpolation)
  else
    let points ← (pointsAt literal.tail.dropLast 0).mapError Mishap.caught
    orMalformed (joinPairs? points)

/-! ## Digits -/

private theorem pointNamed_eq {width? : Option Nat} {digits : Text}
    (wide : ∀ width ∈ width?, width = digits.length) :
    (pointNamed width? digits).mapError Mishap.caught =
      orMalformed (hexPoint? digits) := by
  have widths : width?.any (· ≠ digits.length) = false := by
    cases width? with
    | none => rfl
    | some width => simp [wide width rfl]
  by_cases empty : digits.isEmpty = true
  · have none : hexPoint? digits = none := by simp [hexPoint?, hexNumber?, empty]
    rw [none, pointNamed, hexValue, if_pos (.inl empty)]
    rfl
  · have fits :
        ¬(digits.isEmpty = true ∨ width?.any (· ≠ digits.length) = true) := by
      rw [widths]
      simpa using empty
    rw [pointNamed, hexValue, if_neg fits, hexPoint?]
    cases hexNumber? digits with
    | none => rfl
    | some n =>
        simp only [ok_bind, Option.bind_some, pointOf]
        cases CodePoint.ofNat? n with
        | some point => rfl
        | none =>
            by_cases small : n < 0x80000000
            · simp only [if_pos small]
              rfl
            · simp only [if_neg small]
              rfl

private theorem pointNamed_take (digits : Text) (width : Nat) :
    (pointNamed (some width) (digits.take width)).mapError Mishap.caught =
      orMalformed (if width ≤ digits.length then hexPoint? (digits.take width)
        else none) := by
  by_cases long : width ≤ digits.length
  · rw [if_pos long]
    refine pointNamed_eq fun width' mem => ?_
    rw [List.length_take_of_le long, Option.some.inj mem]
  · have short : width ≠ (digits.take width).length := by
      rw [List.length_take]
      omega
    have refused : hexValue (some width) (digits.take width) =
        .error .badValue := by
      rw [hexValue, if_pos (.inr (by simpa using short))]
    rw [if_neg long, pointNamed, refused]
    rfl

/-! ## Literals -/

/-- An escape that names a code point by its digits, behind a backslash at
position `i`. -/
private theorem escape_eq {named : Except Mishap CodePoint}
    {point? : Option CodePoint}
    (same : named.mapError Mishap.caught = orMalformed point?) (i n : Nat) :
    (do
      let point ← named
      return (some point, i + 1 + n)).mapError Mishap.caught =
        orMalformed ((point?.map fun point => (some point, n)).map fun (point?, n) =>
          (point?, i + 1 + n)) := by
  rw [mapError_bind, same]
  cases point? <;> rfl

private theorem braced_eq {body inner : Text} {i : Nat}
    (shape : body.drop i = '\\' :: 'u' :: '{' :: inner) :
    (do
      let close ← positionOf body '}' i
      let point ← pointNamed none (Span.slice ⟨i + 3, close⟩ body)
      return (some point, close + 1)).mapError Mishap.caught =
        orMalformed (((if (inner.takeWhile (· ≠ '}')).length < inner.length then
            hexPoint? (inner.takeWhile (· ≠ '}')) else none).map fun point =>
              (some point, (inner.takeWhile (· ≠ '}')).length + 3)).map fun (point?,
              n) =>
                (point?, i + 1 + n)) := by
  have length : body.length = i + (inner.length + 3) := by
    have := congrArg List.length shape
    simp only [List.length_drop, List.length_cons] at this
    omega
  have before : ((body.drop i).takeWhile (· ≠ '}')).length =
      (inner.takeWhile (· ≠ '}')).length + 3 := by
    rw [shape]
    rfl
  have digits : body.drop (i + 3) = inner := drop_succ (drop_succ (drop_succ shape))
  have run : inner.take (inner.takeWhile (· ≠ '}')).length =
      inner.takeWhile (· ≠ '}') :=
    (List.prefix_iff_eq_take.1 (List.takeWhile_prefix _)).symm
  rw [positionOf, before, length]
  generalize inner.takeWhile (· ≠ '}') = named at run ⊢
  by_cases closed : named.length < inner.length
  · have close : i + (named.length + 3) = i + 3 + named.length := by omega
    have behind : i + 3 + named.length + 1 = i + 1 + (named.length + 3) := by omega
    rw [if_pos closed, if_pos (by omega), ok_bind, close, slice_eq,
      digits, run, behind]
    exact escape_eq (pointNamed_eq (by simp)) i (named.length + 3)
  · rw [if_neg closed, if_neg (by omega)]
    rfl

private theorem unitAt_eq {body rest : Text} {i : Nat} {c : Char}
    (shape : body.drop i = c :: rest) :
    (unitAt body i).mapError Mishap.caught =
      orMalformed ((unit? c rest).map fun (point?, n) => (point?, i + 1 + n)) := by
  rw [unitAt, charAt_of_drop shape, ok_bind]
  by_cases plain : c ≠ '\\'
  · rw [if_pos plain, unit?.eq_def, if_pos plain]
    rfl
  obtain rfl : c = '\\' := by simpa using plain
  rw [if_neg plain]
  cases rest with
  | nil =>
      have last : body[i + 1]? = none := by
        rw [← List.head?_drop, drop_succ shape]
        rfl
      simp [charAt, last, unit?, orMalformed, Mishap.caught]
  | cons escape digits =>
      have behind := drop_succ shape
      have tail : body.drop (i + 2) = digits := drop_succ behind
      have opening : digits.take 1 = ['{'] ↔ digits.head? = some '{' := by
        cases digits <;> simp
      rw [charAt_of_drop behind, ok_bind, unit?_escape]
      simp only [slice_eq, tail, opening]
      by_cases braced : escape = 'u' ∧ digits.head? = some '{'
      · obtain ⟨rfl, brace⟩ := braced
        obtain ⟨inner, rfl⟩ := List.head?_eq_some_iff.1 brace
        rw [if_pos ⟨rfl, rfl⟩, if_pos ⟨rfl, rfl⟩]
        exact braced_eq shape
      rw [if_neg braced, if_neg braced]
      by_cases four : escape = 'u'
      · rw [if_pos four, if_pos four]
        exact escape_eq (pointNamed_take digits 4) i 5
      rw [if_neg four, if_neg four]
      by_cases two : escape = 'x'
      · rw [if_pos two, if_pos two]
        exact escape_eq (pointNamed_take digits 2) i 3
      rw [if_neg two, if_neg two]
      by_cases broken : escape = '\n'
      · rw [if_pos broken, if_pos broken]
        rfl
      · rw [if_neg broken, if_neg broken]
        rfl

/-- A backslash at the end, a digit that is none, and numbers that name no code
point. -/
example :
    unitAt ['\\'] 0 = .error .outOfRange ∧
      unitAt "\\xg0".toList 0 = .error .badValue ∧
    unitAt "\\u\x7b110000\x7d".toList 0 = .error .badValue ∧
    unitAt "\\u\x7b80000000\x7d".toList 0 = .error .overflow :=
  ⟨rfl, rfl, rfl, rfl⟩

private theorem pointsAt_eq (body : Text) (i : Nat) :
    (pointsAt body i).mapError Mishap.caught =
      orMalformed (bodyPoints? (body.drop i)) := by
  induction i using pointsAt.induct body with
  | case1 i inside ih =>
      have shape := List.drop_eq_getElem_cons inside
      rw [pointsAt, if_pos inside, mapError_bind, unitAt_eq shape, shape]
      cases unit : unit? body[i] (body.drop (i + 1)) with
      | none =>
          rw [bodyPoints?, unit]
          rfl
      | some found =>
          obtain ⟨point?, n⟩ := found
          have later := ih (i + 1 + n)
          rw [Nat.max_eq_right (Nat.le_add_right _ n), ← List.drop_drop] at later
          simp only [Option.map_some, orMalformed, ok_bind, mapError_bind]
          rw [Nat.max_eq_right (Nat.le_add_right _ n), later, bodyPoints?_cons unit]
          cases bodyPoints? ((body.drop (i + 1)).drop n) <;> rfl
  | case2 i outside =>
      rw [pointsAt, if_neg outside, List.drop_eq_nil_of_le (Nat.not_lt.1 outside),
        bodyPoints?]
      rfl

theorem decode_eq (first : Char) (rest : Text) :
    decode (first :: rest) = (Registry.decode first rest).mapError .fault := by
  have points : (pointsAt rest.dropLast 0).mapError Mishap.caught =
      orMalformed (bodyPoints? rest.dropLast) :=
    pointsAt_eq rest.dropLast 0
  have quote : charAt (first :: rest) 0 = .ok first := rfl
  rw [decode, quote, ok_bind, Registry.decode_eq]
  by_cases interpolated : first = '\x60' ∧ hasInterpolation rest = true
  · obtain ⟨rfl, inside⟩ := interpolated
    have whole : hasInterpolation ('\x60' :: rest) = true := by
      simpa [hasInterpolation] using inside
    rw [if_pos ⟨rfl, whole⟩, if_pos ⟨rfl, inside⟩]
    rfl
  · have whole : ¬(first = '\x60' ∧ hasInterpolation (first :: rest) = true) := by
      rintro ⟨rfl, inside⟩
      exact interpolated ⟨rfl, by simpa [hasInterpolation] using inside⟩
    rw [if_neg whole, if_neg interpolated, List.tail_cons, points]
    cases bodyPoints? rest.dropLast with
    | none => rfl
    | some found =>
        simp only [orMalformed, ok_bind, Option.bind_some]
        cases joinPairs? found <;> rfl

end Showcase.Registry.Checked

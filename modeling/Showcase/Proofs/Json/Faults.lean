import Mathlib.Data.List.Basic
import Showcase.Json.Reader
import Showcase.Proofs.Outcome

/-!
# Why a text is not read

Two kinds of text make the reader fail in a way of its own: an integer of more
than 4300 digits (`exists_of_read_longInteger`), and more brackets and braces
that open than there is room for (`lt_openings_of_read_tooDeep`).
-/

namespace Showcase.Json

/-! ## One number -/

/-- A text that begins with an integer of more than 4300 digits, the first of
them no zero, and has neither a fraction nor an exponent behind it. -/
structure BeginsLong (text digits rest : Text) : Prop where
  text_eq : text = digits ++ rest
  isDigit : ∀ c ∈ digits, c.isDigit = true
  nonzero : text.head? ≠ some '0'
  long : 4300 < digits.length
  ends : ∀ c ∈ rest.head?, c.isDigit = false
  noFraction : fraction? rest = none
  noExponent : exponent? rest = none

variable {text digits rest after : Text} {negative : Bool}

def leadingDigits (text : Text) : Text :=
  match text with
  | '0' :: _ => ['0']
  | _ => text.takeWhile Char.isDigit

/-- The number whose leading digits have been read. -/
def numberBehind (negative : Bool) (digits rest : Text) :
    Except Fault (Json × Text) :=
  let fraction := fraction? rest
  let afterFraction := (fraction.map (·.2)).getD rest
  let exponent := exponent? afterFraction
  match fraction, exponent with
  | none, none =>
      if digits.length ≤ 4300 then
        .ok (.int (if negative then -digitsValue digits else digitsValue digits),
          rest)
      else .error .longInteger
  | _, _ =>
      let places := (fraction.map (·.1)).getD []
      let power := (exponent.map (·.1)).getD 0 - places.length
      .ok (.double (.ofDecimal negative (digitsValue (digits ++ places)) power),
        (exponent.map (·.2)).getD afterFraction)

private theorem readNumber_eq (negative : Bool) (text : Text) :
    readNumber negative text =
      if (leadingDigits text).isEmpty then .error .malformed
      else numberBehind negative (leadingDigits text)
        (text.drop (leadingDigits text).length) :=
  rfl

private theorem numberBehind_eq_longInteger_iff :
    numberBehind negative digits rest = .error .longInteger ↔
      4300 < digits.length ∧ fraction? rest = none ∧ exponent? rest = none := by
  unfold numberBehind
  dsimp only
  split
  next noFraction noExponent =>
    replace noExponent : exponent? rest = none := by
      simpa [noFraction] using noExponent
    simp [noFraction, noExponent]
  next other =>
    simp only [reduceCtorEq, false_iff]
    rintro ⟨-, noFraction, noExponent⟩
    exact other noFraction (by simpa [noFraction] using noExponent)

private theorem leadingDigits_append (isDigit : ∀ c ∈ digits, c.isDigit = true)
    (ends : ∀ c ∈ rest.head?, c.isDigit = false)
    (nonzero : (digits ++ rest).head? ≠ some '0') :
    leadingDigits (digits ++ rest) = digits := by
  unfold leadingDigits
  split
  next zero => exact absurd (by rw [zero]; rfl) nonzero
  · rw [List.takeWhile_append_of_pos isDigit]
    cases rest with
    | nil => simp
    | cons c rest => simp [ends c rfl]

private theorem leadingDigits_spec (long : 1 < (leadingDigits text).length) :
    text = leadingDigits text ++ text.drop (leadingDigits text).length ∧
      (∀ c ∈ leadingDigits text, c.isDigit = true) ∧ text.head? ≠ some '0' ∧
      ∀ c ∈ (text.drop (leadingDigits text).length).head?, c.isDigit = false := by
  unfold leadingDigits at long ⊢
  split at long
  · simp at long
  next nonzero =>
    have drop_eq : text.drop (text.takeWhile Char.isDigit).length =
        text.dropWhile Char.isDigit := by
      have behind :
          ((text.takeWhile Char.isDigit) ++ text.dropWhile Char.isDigit).drop
          (text.takeWhile Char.isDigit).length = text.dropWhile Char.isDigit :=
            List.drop_left
      rwa [List.takeWhile_append_dropWhile] at behind
    refine ⟨?_, List.all_eq_true.1 List.all_takeWhile, ?_, ?_⟩
    · rw [drop_eq, List.takeWhile_append_dropWhile]
    · intro zero
      obtain ⟨tail, rfl⟩ := List.head?_eq_some_iff.1 zero
      exact nonzero tail rfl
    · intro c mem
      have stop := List.head?_dropWhile_not Char.isDigit text
      rwa [← drop_eq, Option.mem_def.1 mem] at stop

private theorem readNumber_eq_longInteger_iff :
    readNumber negative text = .error .longInteger ↔
      ∃ digits rest, BeginsLong text digits rest := by
  rw [readNumber_eq]
  constructor
  · intro failed
    split at failed
    · simp at failed
    · obtain ⟨long, noFraction, noExponent⟩ :=
        numberBehind_eq_longInteger_iff.1 failed
      have several : 1 < (leadingDigits text).length := by omega
      obtain ⟨text_eq, isDigit, nonzero, ends⟩ := leadingDigits_spec several
      exact ⟨_, _, text_eq, isDigit, nonzero, long, ends, noFraction, noExponent⟩
  · rintro ⟨digits, rest, rfl, isDigit, nonzero, long, ends, noFraction, noExponent⟩
    rw [leadingDigits_append isDigit ends nonzero, List.drop_left, if_neg]
    · exact numberBehind_eq_longInteger_iff.2 ⟨long, noFraction, noExponent⟩
    · rw [List.isEmpty_iff_length_eq_zero]
      omega

/-! ## What a reader leaves -/

def isOpening (c : Char) : Bool := c == '[' || c == '\x7b'

/-- How many arrays and objects may begin in a text. -/
def openings (text : Text) : Nat := text.countP isOpening

/-- A reader leaves the end of its text.  If it fails because of an integer's
length, such an integer stands in its text, and if it has no room, more brackets
open there than it has room for. -/
def Within {α : Type} (room : Nat) (text : Text) : Except Fault (α × Text) → Prop
  | .ok (_, after) => after <:+ text
  | .error .malformed => True
  | .error .longInteger => ∃ digits rest tail, tail <:+ text ∧
      BeginsLong tail digits rest
  | .error .tooDeep => room < openings text

section

variable {α β : Type} {room : Nat} {r : Except Fault (α × Text)}

private theorem Within.mono {tail : Text} (h : Within room tail r)
    (suffix : tail <:+ text) :
    Within room text r := by
  match r, h with
  | .ok (_, after), h => exact List.IsSuffix.trans h suffix
  | .error .malformed, _ => trivial
  | .error .longInteger, ⟨digits, rest, later, inside, long⟩ =>
      exact ⟨digits, rest, later, inside.trans suffix, long⟩
  | .error .tooDeep, h => exact Nat.lt_of_lt_of_le h suffix.sublist.countP_le

/-- One reader behind another. -/
private theorem Within.bind {f : α × Text → Except Fault (β × Text)}
    (h : Within room text r)
    (next : ∀ value after, r = .ok (value, after) →
      Within room after (f (value, after))) :
    Within room text (r >>= f) := by
  match r, h, next with
  | .ok (value, after), h, next => exact (next value after rfl).mono h
  | .error .malformed, _, _ => trivial
  | .error .longInteger, h, _ => exact h
  | .error .tooDeep, h, _ => exact h

/-- What a bracket encloses is read with less room. -/
private theorem Within.enclosed {c : Char} (opening : isOpening c = true)
    (h : Within room text r) : Within (room + 1) (c :: text) r := by
  match r, h with
  | .ok (_, after), h => exact List.IsSuffix.trans h (List.suffix_cons c text)
  | .error .malformed, _ => trivial
  | .error .longInteger, ⟨digits, rest, later, inside, long⟩ =>
      exact ⟨digits, rest, later, inside.trans (List.suffix_cons c text), long⟩
  | .error .tooDeep, h =>
      change room + 1 < List.countP isOpening (c :: text)
      rw [List.countP_cons_of_pos opening]
      exact Nat.succ_lt_succ h

end

private theorem skipSpace_suffix (text : Text) :
    skipSpace text <:+ text := List.dropWhile_suffix _

private theorem readString_suffix {points : List CodePoint}
    (h : readString text = some (points, after)) :
    after <:+ text := by
  fun_induction readString text generalizing points with
  | case1 => simp at h
  | case2 rest =>
      cases h
      exact List.suffix_cons ..
  | case3 => simp at h
  | case4 first rest notQuote point n unit ih =>
      obtain ⟨⟨points, after⟩, read, same⟩ := Option.map_eq_some_iff.1 h
      cases same
      exact (ih read).trans ((List.drop_suffix ..).trans (List.suffix_cons ..))

private theorem fraction?_suffix {places : Text}
    (h : fraction? text = some (places, after)) :
    after <:+ text := by
  unfold fraction? at h
  split at h
  next rest =>
    dsimp only at h
    split at h
    · simp at h
    · cases h
      exact (List.dropWhile_suffix _).trans (List.suffix_cons ..)
  · simp at h

private theorem exponent?_suffix {power : Int}
    (h : exponent? text = some (power, after)) :
    after <:+ text := by
  -- The digits are read in the same way behind either sign and behind none.
  have unsigned {rest : Text} {sign : Int}
      (read : (if (rest.takeWhile Char.isDigit).isEmpty then none
      else some (sign * digitsValue (rest.takeWhile Char.isDigit),
        rest.dropWhile Char.isDigit)) =
          some (power, after)) : after <:+ rest := by
    split at read
    · simp at read
    · cases read
      exact List.dropWhile_suffix _
  unfold exponent? at h
  split at h
  next e rest =>
    split at h
    · split at h
      · exact (unsigned h).trans ((List.suffix_cons ..).trans (List.suffix_cons ..))
      · exact (unsigned h).trans ((List.suffix_cons ..).trans (List.suffix_cons ..))
      · exact (unsigned h).trans (List.suffix_cons ..)
    · simp at h
  · simp at h

private theorem getD_suffix {α : Type} {f : Text → Option (α × Text)}
    (each : ∀ value after, f text = some (value, after) → after <:+ text) :
    ((f text).map (·.2)).getD text <:+ text := by
  cases found : f text with
  | none => exact List.suffix_rfl
  | some result => exact each result.1 result.2 found

private theorem numberBehind_suffix {value : Json}
    (h : numberBehind negative digits rest = .ok (value, after)) :
    after <:+ rest := by
  unfold numberBehind at h
  dsimp only at h
  split at h
  · split at h
    · cases h
      exact List.suffix_rfl
    · simp at h
  · cases h
    exact (getD_suffix (f := exponent?) fun _ _ => exponent?_suffix).trans
      (getD_suffix (f := fraction?) fun _ _ => fraction?_suffix)

private theorem numberBehind_ne_tooDeep :
    numberBehind negative digits rest ≠ .error .tooDeep := by
  unfold numberBehind
  dsimp only
  split
  · split <;> simp
  · simp

private theorem within_readNumber (room : Nat) (negative : Bool) (text : Text) :
    Within room text (readNumber negative text) := by
  cases read : readNumber negative text with
  | error fault =>
      cases fault with
      | malformed => trivial
      | longInteger =>
          obtain ⟨digits, rest, long⟩ := readNumber_eq_longInteger_iff.1 read
          exact ⟨digits, rest, text, List.suffix_rfl, long⟩
      | tooDeep =>
          rw [readNumber_eq] at read
          split at read
          · simp at read
          · exact absurd read numberBehind_ne_tooDeep
  | ok result =>
      rw [readNumber_eq] at read
      split at read
      · simp at read
      · exact (numberBehind_suffix read).trans (List.drop_suffix ..)

private theorem within_readScalar (room : Nat) (text : Text) :
    Within room text (readScalar text) := by
  unfold readScalar
  split
  next result found =>
    obtain ⟨word, -, read⟩ := List.exists_of_findSome?_eq_some found
    obtain ⟨after, rest, rfl⟩ := Option.map_eq_some_iff.1 read
    unfold after? at rest
    split at rest
    · cases rest
      exact List.drop_suffix ..
    · simp at rest
  · split
    · exact (within_readNumber ..).mono (List.suffix_cons ..)
    · exact within_readNumber ..

/-! ## Values -/

private theorem suffix_of_skipSpace {c : Char} (h : skipSpace text = c :: after) :
    after <:+ text :=
  (List.suffix_cons c after).trans (h ▸ skipSpace_suffix text)

mutual

private theorem within_readValue (fuel room : Nat) (text : Text) :
    Within room text (readValue fuel room text) := by
  unfold readValue
  split
  · trivial
  next fuel =>
    split
    next rest =>
      split
      next points after read =>
        exact (readString_suffix read).trans (List.suffix_cons ..)
      · trivial
    next rest =>
      split
      · exact List.countP_pos_iff.2 ⟨'[', by simp, rfl⟩
      next room =>
        refine Within.enclosed rfl (Within.mono ?_ (skipSpace_suffix rest))
        split
        next after shape => exact shape ▸ List.suffix_cons ..
        · exact (within_readElements fuel room (skipSpace rest)).bind fun _ _ _ =>
            List.suffix_rfl
    next rest =>
      split
      · exact List.countP_pos_iff.2 ⟨'\x7b', by simp, rfl⟩
      next room =>
        refine Within.enclosed rfl (Within.mono ?_ (skipSpace_suffix rest))
        split
        next after shape => exact shape ▸ List.suffix_cons ..
        · exact (within_readMembers fuel room (skipSpace rest)).bind fun _ _ _ =>
            List.suffix_rfl
    · exact within_readScalar room text

private theorem within_readElements (fuel room : Nat) (text : Text) :
    Within room text (readElements fuel room text) := by
  unfold readElements
  split
  · trivial
  next fuel =>
    refine (within_readValue fuel room text).bind fun value after _ => ?_
    dsimp only
    split
    next last shape => exact suffix_of_skipSpace shape
    next more shape =>
      have later := (within_readElements fuel room (skipSpace more)).bind
        (f := fun (values, after) => .ok (value :: values, after)) fun _ _ _ =>
          List.suffix_rfl
      exact later.mono ((skipSpace_suffix more).trans (suffix_of_skipSpace shape))
    · trivial

private theorem within_readMembers (fuel room : Nat) (text : Text) :
    Within room text (readMembers fuel room text) := by
  unfold readMembers
  split
  · trivial
  next fuel =>
    split
    next rest =>
      split
      · trivial
      next key after read =>
        split
        next valued colon =>
          refine Within.mono ?_
            ((skipSpace_suffix valued).trans ((suffix_of_skipSpace colon).trans
            ((readString_suffix read).trans (List.suffix_cons ..))))
          refine (within_readValue fuel room (skipSpace valued)).bind
            fun value after _ => ?_
          dsimp only
          split
          next last shape => exact suffix_of_skipSpace shape
          next more shape =>
            have later := (within_readMembers fuel room (skipSpace more)).bind
              (f := fun (pairs, after) => .ok ((key, value) :: pairs, after))
              fun _ _ _ => List.suffix_rfl
            exact later.mono
              ((skipSpace_suffix more).trans (suffix_of_skipSpace shape))
          · trivial
        · trivial
    · trivial

end

variable {room : Nat}

private theorem within_read (room : Nat) (text : Text) :
    Within room text ((read text room).map (·, ([] : Text))) := by
  have value := (within_readValue (2 * text.length + 2) room (skipSpace text)).mono
    (skipSpace_suffix text)
  rw [read]
  generalize readValue (2 * text.length + 2) room (skipSpace text) =
    result at value ⊢
  match result, value with
  | .ok (value, after), _ =>
      rw [ok_bind]
      dsimp only
      split
      · exact List.nil_suffix
      · trivial
  | .error .malformed, _ => trivial
  | .error .longInteger, value => exact value
  | .error .tooDeep, value => exact value

/-- Only an integer of more than 4300 digits that stands in the text makes its
reading fail because of an integer's length. -/
theorem exists_of_read_longInteger (h : read text room = .error .longInteger) :
    ∃ digits rest tail, tail <:+ text ∧ BeginsLong tail digits rest := by
  have within := within_read room text
  rwa [h] at within

/-- The reader lacks room only for a text in which more brackets open than it
has room for. -/
theorem lt_openings_of_read_tooDeep (h : read text room = .error .tooDeep) :
    room < openings text := by
  have within := within_read room text
  rwa [h] at within

/-! ## Where a value is read -/

private theorem BeginsLong.exists_digit (h : BeginsLong text digits rest) :
    ∃ digit more, text = digit :: more ∧ ∀ c : Char, c.isDigit = false →
      c ≠ digit := by
  obtain ⟨digit, digits, rfl⟩ :=
    List.exists_cons_of_length_pos (Nat.lt_of_le_of_lt (Nat.zero_le 4300) h.long)
  refine ⟨digit, digits ++ rest, h.text_eq, ?_⟩
  rintro c notDigit rfl
  simp [h.isDigit c List.mem_cons_self] at notDigit

private theorem BeginsLong.readValue_eq (h : BeginsLong text digits rest)
    (fuel room : Nat) :
    readValue (fuel + 1) room text = .error .longInteger := by
  obtain ⟨digit, more, rfl, other⟩ := h.exists_digit
  have scalar : readScalar (digit :: more) = readNumber false (digit :: more) := by
    rw [readScalar, List.findSome?_eq_none_iff.2]
    · simp [words, after?, other 'n' rfl, other 't' rfl, other 'f' rfl,
        other 'N' rfl, other 'I' rfl, other '-' rfl]
    · rintro tail ⟨⟩
      exact other '-' rfl rfl
  rw [readValue, scalar, readNumber_eq_longInteger_iff.2 ⟨digits, rest, h⟩]
  · rintro tail ⟨⟩
    exact other '"' rfl rfl
  · rintro tail ⟨⟩
    exact other '[' rfl rfl
  · rintro tail ⟨⟩
    exact other '\x7b' rfl rfl

private theorem BeginsLong.skipSpace_eq (h : BeginsLong text digits rest) :
    skipSpace text = text := by
  obtain ⟨digit, more, rfl, other⟩ := h.exists_digit
  have notSpace : isSpace digit = false := by
    simp [isSpace, (other ' ' rfl).symm, (other '\t' rfl).symm,
      (other '\n' rfl).symm, (other '\r' rfl).symm]
  exact List.dropWhile_cons_of_neg (by simp [notSpace])

theorem BeginsLong.read_member_eq (h : BeginsLong text digits rest) (room : Nat) :
    read ('\x7b' :: '"' :: 'a' :: '"' :: ':' :: text) (room + 1) =
      .error .longInteger := by
  have key : readString ('a' :: '"' :: ':' :: text) =
      some ([.ofChar 'a'], ':' :: text) := by
    rw [readString, if_neg (by decide)]
    simp [stringUnit?, readString]
  have members (fuel : Nat) :
      readMembers (fuel + 2) room ('"' :: 'a' :: '"' :: ':' :: text) =
        .error .longInteger := by
    rw [readMembers, key]
    change (readValue (fuel + 1) room (skipSpace text) >>= _) = _
    rw [h.skipSpace_eq, h.readValue_eq, error_bind]
  have value (fuel : Nat) :
      readValue (fuel + 3) (room + 1) ('\x7b' :: '"' :: 'a' :: '"' :: ':' :: text) =
        .error .longInteger := by
    rw [readValue]
    change (readMembers (fuel + 2) room ('"' :: 'a' :: '"' :: ':' :: text) >>= _)
      = _
    rw [members, error_bind]
  change (readValue _ (room + 1) ('\x7b' :: '"' :: 'a' :: '"' :: ':' :: text) >>=
    _) = _
  rw [List.length_cons, Nat.mul_add, value, error_bind]

/-! ## Nothing but brackets -/

private theorem readValue_brackets {fuel room : Nat} (enough : 2 * room < fuel)
    (text : Text) :
    readValue fuel room (List.replicate (room + 1) '[' ++ text) =
      .error .tooDeep := by
  induction room generalizing fuel with
  | zero =>
      obtain ⟨fuel, rfl⟩ := Nat.exists_eq_add_of_lt enough
      rfl
  | succ room ih =>
      obtain ⟨fuel, rfl⟩ : ∃ more, fuel = more + 2 := ⟨fuel - 2, by omega⟩
      have elements :
          readElements (fuel + 1) room (List.replicate (room + 1) '[' ++ text) =
            .error .tooDeep := by
        rw [readElements, ih (by omega), error_bind]
      rw [List.replicate_succ, List.cons_append, readValue]
      change (readElements (fuel + 1) room (List.replicate (room + 1) '[' ++ text)
        >>= _) = _
      rw [elements, error_bind]

/-- A bracket that opens where there is no room left ends the reading, whatever
follows. -/
theorem read_brackets (room : Nat) (text : Text) :
    read (List.replicate (room + 1) '[' ++ text) room = .error .tooDeep := by
  have start : skipSpace (List.replicate (room + 1) '[' ++ text) =
      List.replicate (room + 1) '[' ++ text := rfl
  rw [read, start, readValue_brackets (by simp; omega), error_bind]

end Showcase.Json

import Mathlib.Data.List.Basic
import Showcase.Text.Hex

/-!
# Code points of texts

The code points of a text are those that hold no surrogate, and they name the text
(`scalars?_eq_some_iff`).
-/

namespace Showcase

/-! ## Hexadecimal digits -/

private theorem hexDigit?_hexChar {n : Nat} (h : n < 16) :
    hexDigit? (hexChar n) = some n := by
  have all : ∀ n : Fin 16, hexDigit? (hexChar n) = some n.val := by decide
  exact all ⟨n, h⟩

theorem hexPoint?_hex4 {n : Nat} (h : n < 65536) :
    hexPoint? (hex4 n) = some ⟨n, by omega⟩ := by
  have number : hexNumber? (hex4 n) = some n := by
    have digits : (hex4 n).mapM hexDigit? =
        some [n / 4096 % 16, n / 256 % 16, n / 16 % 16, n % 16] := by
      simp [hex4, hexDigit?_hexChar (Nat.mod_lt _ (by decide : 0 < 16))]
    rw [hexNumber?, digits]
    simp [hex4]
    omega
  rw [hexPoint?, number, Option.bind_some, CodePoint.ofNat?, dif_pos]

/-! ## Texts -/

theorem CodePoint.toChar?_eq_some_iff {p : CodePoint} {c : Char} :
    p.toChar? = some c ↔ p = .ofChar c := by
  constructor
  · intro h
    unfold toChar? at h
    split at h
    · simp at h
    next outside =>
      cases h
      have valid : p.val.isValidChar := by
        have below := p.val_lt
        simp only [isSurrogate, Bool.and_eq_true, decide_eq_true_eq] at outside
        unfold Nat.isValidChar
        omega
      rw [Char.ofNat, dif_pos valid]
      rfl
  · rintro rfl
    exact toChar?_ofChar c

theorem scalars?_eq_some_iff {points : List CodePoint} {text : Text} :
    scalars? points = some text ↔ points = toPoints text := by
  constructor
  · intro h
    induction points generalizing text with
    | nil =>
        cases h
        rfl
    | cons p points ih =>
        rw [scalars?, List.mapM_cons] at h
        obtain ⟨c, here, rest⟩ := Option.bind_eq_some_iff.1 h
        obtain ⟨later, behind, made⟩ := Option.bind_eq_some_iff.1 rest
        cases made
        rw [toPoints, List.map_cons, CodePoint.toChar?_eq_some_iff.1 here,
          ih behind]
        rfl
  · rintro rfl
    exact scalars?_toPoints text

private theorem CodePoint.ofChar_injective {c d : Char}
    (h : ofChar c = ofChar d) : c = d := by
  simpa [toChar?_ofChar] using congrArg toChar? h

theorem exists_of_toPoints_cons {text : Text} {c : Char}
    {points : List CodePoint} (h : toPoints text = .ofChar c :: points) :
    ∃ rest, text = c :: rest ∧ toPoints rest = points := by
  obtain ⟨d, rest, rfl, first, rfl⟩ := List.map_eq_cons_iff.1 h
  exact ⟨rest, by rw [CodePoint.ofChar_injective first], rfl⟩

theorem toPoints_injective {text text' : Text}
    (h : toPoints text = toPoints text') : text = text' := by
  simpa [scalars?_toPoints] using congrArg scalars? h

theorem exists_of_toPoints_append {text : Text} {points points' : List CodePoint}
    (h : toPoints text = points ++ points') :
    ∃ front back, text = front ++ back ∧ toPoints front = points ∧
      toPoints back = points' :=
  List.map_eq_append_iff.1 h

theorem joinPairs?_ofChar (c : Char) (points : List CodePoint) :
    joinPairs? (.ofChar c :: points) = (joinPairs? points).map (c :: ·) := by
  have notHigh : (CodePoint.ofChar c).isHigh = false := by
    have := CodePoint.isSurrogate_ofChar c
    simp only [CodePoint.isSurrogate, Bool.and_eq_false_iff,
      decide_eq_false_iff_not] at this
    simp only [CodePoint.isHigh, Bool.and_eq_false_iff, decide_eq_false_iff_not]
    omega
  cases points with
  | nil => simp [joinPairs?, CodePoint.toChar?_ofChar]
  | cons p points =>
      rw [joinPairs?, notHigh, CodePoint.toChar?_ofChar]
      rfl

theorem joinPairs?_toPoints (text : Text) :
    joinPairs? (toPoints text) = some text := by
  induction text with
  | nil => rfl
  | cons c text ih =>
      rw [toPoints, List.map_cons, joinPairs?_ofChar]
      exact congrArg (Option.map (c :: ·)) ih

end Showcase

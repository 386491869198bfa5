/-!
# Code points

A `Text` is a list of Unicode scalar values, the unit in which all offsets and
lengths are counted.  Escapes such as `\ud83d` can also name one half of a
surrogate pair, which no text holds, so decoded escapes are lists of
`CodePoint`s.  `joinPairs?` merges the pairs and refuses the halves that stand
alone.
-/

namespace Showcase

abbrev Text := List Char

-- Before the instance that goes through all the characters there are.
instance (priority := 2000) decidableForallMem (p : Char → Prop)
    [DecidablePred p] (text : Text) :
    Decidable (∀ c ∈ text, p c) :=
  List.decidableBAll p text

/-- Whether a text comes before another one or equals it, by the numbers of
their characters. -/
def precedes : Text → Text → Bool
  | [], _ => true
  | _ :: _, [] => false
  | c :: cs, d :: ds => c.toNat < d.toNat || c.toNat == d.toNat && precedes cs ds

/-- A number below `0x110000`, surrogates included. -/
structure CodePoint where
  val : Nat
  val_lt : val < 0x110000
deriving DecidableEq, Repr

namespace CodePoint

def ofNat? (n : Nat) : Option CodePoint :=
  if h : n < 0x110000 then some ⟨n, h⟩ else none

theorem toNat_lt (c : Char) : c.toNat < 0x110000 := by
  have valid : c.toNat < 0xD800 ∨ 0xDFFF < c.toNat ∧ c.toNat < 0x110000 := c.valid
  omega

def ofChar (c : Char) : CodePoint := ⟨c.toNat, toNat_lt c⟩

def isHigh (p : CodePoint) : Bool := 0xD800 ≤ p.val && p.val ≤ 0xDBFF

def isLow (p : CodePoint) : Bool := 0xDC00 ≤ p.val && p.val ≤ 0xDFFF

def isSurrogate (p : CodePoint) : Bool := 0xD800 ≤ p.val && p.val ≤ 0xDFFF

def toChar? (p : CodePoint) : Option Char :=
  if p.isSurrogate then none else some (Char.ofNat p.val)

/-- The code point as a reader of texts sees it, who takes a surrogate for the
replacement character. -/
def seen (p : CodePoint) : Char := p.toChar?.getD '\uFFFD'

def joined (high low : CodePoint) : Char :=
  Char.ofNat (0x10000 + (high.val - 0xD800) * 0x400 + (low.val - 0xDC00))

theorem isSurrogate_ofChar (c : Char) : (ofChar c).isSurrogate = false := by
  have valid : c.toNat < 0xD800 ∨ 0xDFFF < c.toNat ∧ c.toNat < 0x110000 := c.valid
  have outside : ¬((ofChar c).isSurrogate = true) := by
    simp only [isSurrogate, Bool.and_eq_true]
    rintro ⟨low, high⟩
    have low : 0xD800 ≤ c.toNat := of_decide_eq_true low
    have high : c.toNat ≤ 0xDFFF := of_decide_eq_true high
    omega
  exact Bool.eq_false_iff.2 outside

theorem toChar?_ofChar (c : Char) : (ofChar c).toChar? = some c := by
  simp only [toChar?, isSurrogate_ofChar, Bool.false_eq_true, if_false]
  simp [ofChar]

end CodePoint

/-- Merges each high surrogate with the low one after it.  A surrogate
without its partner makes the whole sequence unreadable. -/
def joinPairs? : List CodePoint → Option Text
  | [] => some []
  | [p] => p.toChar?.map ([·])
  | p :: q :: rest =>
      if p.isHigh && q.isLow then
        (joinPairs? rest).map (CodePoint.joined p q :: ·)
      else
        match p.toChar? with
        | none => none
        | some c => (joinPairs? (q :: rest)).map (c :: ·)

def scalars? (points : List CodePoint) : Option Text :=
  points.mapM CodePoint.toChar?

def toPoints (text : Text) : List CodePoint :=
  text.map CodePoint.ofChar

theorem scalars?_toPoints (text : Text) : scalars? (toPoints text) = some text := by
  induction text with
  | nil => rfl
  | cons c text ih =>
      simp only [scalars?, toPoints, List.map_cons, List.mapM_cons] at ih ⊢
      simp [CodePoint.toChar?_ofChar, ih]

def covers (ranges : List (Nat × Nat)) (n : Nat) : Bool :=
  ranges.any fun r => r.1 ≤ n && n ≤ r.2

end Showcase

import Showcase.Number.Double

/-!
# Shortest decimals

`Double.shortest` finds the decimal number with the fewest digits that reads
back as a given double, and of those the one nearest to it.  `Double.render`
writes it out: positionally from 0.0001 up to below 10^16, with an exponent
otherwise.
-/

namespace Showcase.Double

structure Decimal where
  digits : Nat
  power : Int
  deriving DecidableEq, Repr

/-- The scales that bring `unit * 10 ^ power` and multiples of a quarter of
`2 ^ exponent` to integers: the first per decimal unit, the second per
quarter. -/
def scales (power exponent : Int) : Nat × Nat :=
  (Nat.pow 10 power.toNat * Nat.pow 2 (2 - exponent).toNat,
    Nat.pow 10 (-power).toNat * Nat.pow 2 (exponent - 2).toNat)

/-- The neighbour of the double on the grid of multiples of `10 ^ power` that
rounds to it.  The numbers that round to `mantissa * 2 ^ exponent` reach half
a unit up and down, but only a quarter down at a power of two; the ends belong
to them if the mantissa is even. -/
def onGrid? (mantissa : Nat) (exponent power : Int) : Option Decimal :=
  let (unit, quarter) := scales power exponent
  let center := 4 * mantissa * quarter
  let down := if mantissa = Nat.pow 2 52 ∧ leastExponent < exponent then 1 else 2
  let low := (4 * mantissa - down) * quarter
  let high := (4 * mantissa + 2) * quarter
  let inside := fun d : Nat =>
    if mantissa % 2 = 0 then low ≤ d * unit && d * unit ≤ high
    else low < d * unit && d * unit < high
  let below := center / unit
  let above := below + 1
  let toBelow := center - below * unit
  let toAbove := above * unit - center
  match inside below, inside above with
  | true, false => some ⟨below, power⟩
  | false, true => some ⟨above, power⟩
  | false, false => none
  | true, true =>
      if toBelow < toAbove ∨ toBelow = toAbove ∧ below % 2 = 0 then
        some ⟨below, power⟩
      else some ⟨above, power⟩

def leading (mantissa : Nat) (exponent : Int) : Int :=
  if 0 ≤ exponent then
    (decimalLength (mantissa * Nat.pow 2 exponent.toNat) : Int) - 1
  else (decimalLength (mantissa * Nat.pow 10 400 / Nat.pow 2 (-exponent).toNat) :
    Int) - 401

def dropZeros : Nat → Decimal → Decimal
  | 0, d => d
  | fuel + 1, d =>
      if d.digits % 10 = 0 ∧ d.digits ≠ 0 then
        dropZeros fuel ⟨d.digits / 10, d.power + 1⟩ else d

def shortest (mantissa : Nat) (exponent : Int) : Decimal :=
  let first := leading mantissa exponent
  match (List.range 17).findSome? fun (n : Nat) =>
    onGrid? mantissa exponent (first - n) with
  | some d => dropZeros 20 d
  | none => ⟨mantissa, exponent⟩

/-! ## Writing -/

def zeros (n : Nat) : List Char := List.replicate n '0'

def renderExponent (e : Int) : List Char :=
  let digits := Nat.toDigits 10 e.natAbs
  (if e < 0 then '-' else '+') :: (zeros (2 - digits.length) ++ digits)

/-- A positive decimal number; `point` digits stand before its point. -/
def renderDecimal (d : Decimal) : List Char :=
  let digits := Nat.toDigits 10 d.digits
  let point : Int := digits.length + d.power
  if point ≤ -4 ∨ 16 < point then
    let fraction := if digits.length = 1 then [] else '.' :: digits.drop 1
    digits.take 1 ++ fraction ++ 'e' :: renderExponent (point - 1)
  else if point ≤ 0 then
    '0' :: '.' :: (zeros (-point).toNat ++ digits)
  else if digits.length ≤ point then
    digits ++ zeros (point.toNat - digits.length) ++ ['.', '0']
  else
    digits.take point.toNat ++ '.' :: digits.drop point.toNat

def render : Double → List Char
  | nan => "NaN".toList
  | infinite negative => (if negative then ['-'] else []) ++ "Infinity".toList
  | finite negative mantissa exponent =>
      (if negative then ['-'] else [])
        ++ if mantissa = 0 then "0.0".toList else
        renderDecimal (shortest mantissa exponent)

end Showcase.Double

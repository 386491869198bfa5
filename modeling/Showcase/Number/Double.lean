/-!
# Double precision numbers

A finite double is `mantissa * 2 ^ exponent` with a mantissa below `2 ^ 53` and
an exponent of at least `-1074`.  `ofDecimal` takes the double nearest to a
decimal number; `Showcase.Number.Shortest` goes the other way.
-/

namespace Showcase

inductive Double where
  | finite (negative : Bool) (mantissa : Nat) (exponent : Int)
  | infinite (negative : Bool)
  | nan
  deriving DecidableEq, Repr

namespace Double

def mantissaLimit : Nat := Nat.pow 2 53

def leastExponent : Int := -1074

def greatestExponent : Int := 971

def roundHalfEven (num den : Nat) : Nat :=
  let floor := num / den
  let twice := 2 * (num % den)
  if twice < den then floor
  else if den < twice then floor + 1
  else if floor % 2 = 0 then floor
  else floor + 1

/-- `num / den` in units of `2 ^ exponent`, rounded. -/
def roundAt (num den : Nat) (exponent : Int) : Nat :=
  if 0 ≤ exponent then roundHalfEven num (den * Nat.pow 2 exponent.toNat)
  else roundHalfEven (num * Nat.pow 2 (-exponent).toNat) den

def floorLog2 (num den : Nat) : Int :=
  let e : Int := (num.log2 : Int) - den.log2
  let reaches :=
    if 0 ≤ e then den * Nat.pow 2 e.toNat ≤ num else
      den ≤ num * Nat.pow 2 (-e).toNat
  if reaches then e else e - 1

/-- The double nearest to `num / den`, of two equally near ones the one with
the even mantissa. -/
def ofRatio (negative : Bool) (num den : Nat) : Double :=
  if num = 0 then .finite negative 0 leastExponent
  else
    let exponent := max (floorLog2 num den - 52) leastExponent
    let mantissa := roundAt num den exponent
    let carried := mantissa = mantissaLimit
    let exponent := if carried then exponent + 1 else exponent
    let mantissa := if carried then mantissa / 2 else mantissa
    if greatestExponent < exponent then .infinite negative
    else .finite negative mantissa exponent

def decimalLength (n : Nat) : Nat := (Nat.toDigits 10 n).length

def ofDecimal (negative : Bool) (digits : Nat) (power : Int) : Double :=
  let magnitude : Int := decimalLength digits + power
  if digits = 0 ∨ magnitude < -400 then .finite negative 0 leastExponent
  else if 400 < magnitude then .infinite negative
  else if 0 ≤ power then ofRatio negative (digits * Nat.pow 10 power.toNat) 1
  else ofRatio negative digits (Nat.pow 10 (-power).toNat)

def truncate (negative : Bool) (mantissa : Nat) (exponent : Int) : Int :=
  let size : Nat :=
    if 0 ≤ exponent then mantissa * Nat.pow 2 exponent.toNat
    else mantissa / Nat.pow 2 (-exponent).toNat
  if negative then -(size : Int) else size

end Double

end Showcase

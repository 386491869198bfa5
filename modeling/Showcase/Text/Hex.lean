import Showcase.Text.CodePoint

/-!
# Hexadecimal digits
-/

namespace Showcase

def hexDigit? (c : Char) : Option Nat :=
  if '0' ≤ c ∧ c ≤ '9' then some (c.toNat - '0'.toNat)
  else if 'a' ≤ c ∧ c ≤ 'f' then some (c.toNat - 'a'.toNat + 10)
  else if 'A' ≤ c ∧ c ≤ 'F' then some (c.toNat - 'A'.toNat + 10)
  else none

/-- The number that a non-empty run of hexadecimal digits names. -/
def hexNumber? (digits : Text) : Option Nat :=
  if digits.isEmpty then none
  else (digits.mapM hexDigit?).map fun values =>
    values.foldl (fun n d => 16 * n + d) 0

def hexPoint? (digits : Text) : Option CodePoint :=
  (hexNumber? digits).bind CodePoint.ofNat?

def hexChar (n : Nat) : Char :=
  if n < 10 then Char.ofNat ('0'.toNat + n) else Char.ofNat ('a'.toNat + (n - 10))

def hex4 (n : Nat) : Text :=
  [hexChar (n / 4096 % 16), hexChar (n / 256 % 16), hexChar (n / 16 % 16),
    hexChar (n % 16)]

end Showcase

import Showcase.Text.Blank

/-!
# Integers in text

`Integer.parse?` reads an optional sign and decimal digits of any script, with
single underscores between digits allowed, and white space around the whole.
More than 4300 digits are refused, and no integer that needs more is written.
-/

namespace Showcase

/-- The zeros of the decimal digit runs of Unicode 14; each starts ten
consecutive digits. -/
def decimalZeros : List Nat :=
  [0x30, 0x660, 0x6F0, 0x7C0, 0x966, 0x9E6, 0xA66, 0xAE6, 0xB66,
    0xBE6, 0xC66, 0xCE6,
   0xD66, 0xDE6, 0xE50, 0xED0, 0xF20, 0x1040, 0x1090, 0x17E0, 0x1810,
   0x1946, 0x19D0,
   0x1A80, 0x1A90, 0x1B50, 0x1BB0, 0x1C40, 0x1C50, 0xA620, 0xA8D0, 0xA900, 0xA9D0,
   0xA9F0, 0xAA50, 0xABF0, 0xFF10, 0x104A0, 0x10D30, 0x11066, 0x110F0, 0x11136,
   0x111D0, 0x112F0, 0x11450, 0x114D0, 0x11650, 0x116C0, 0x11730, 0x118E0, 0x11950,
   0x11C50, 0x11D50, 0x11DA0, 0x16A60, 0x16AC0, 0x16B50, 0x1D7CE, 0x1D7D8, 0x1D7E2,
   0x1D7EC, 0x1D7F6, 0x1E140, 0x1E2F0, 0x1E950, 0x1FBF0]

def decimalDigit? (c : Char) : Option Nat :=
  (decimalZeros.find? fun start => start ≤ c.toNat && c.toNat < start + 10).map
  (c.toNat - ·)

namespace Integer

def maxDigits : Nat := 4300

def isWritable (n : Int) : Bool := n.natAbs < Nat.pow 10 maxDigits

/-- White space around a number; the information separators are not. -/
def isPadding (c : Char) : Bool := isBlank c && !(0x1C ≤ c.toNat && c.toNat ≤ 0x1F)

def digits? : Text → Option (List Nat)
  | [] => none
  | [c] => (decimalDigit? c).map ([·])
  | c :: '_' :: rest =>
      match decimalDigit? c with
      | none => none
      | some d => (digits? rest).map (d :: ·)
  | c :: rest =>
      match decimalDigit? c with
      | none => none
      | some d => (digits? rest).map (d :: ·)

def ofDigits (digits : List Nat) : Nat :=
  digits.foldl (fun n d => 10 * n + d) 0

def unsigned? (text : Text) : Option Nat :=
  match digits? text with
  | none => none
  | some digits => if digits.length ≤ maxDigits then some (ofDigits digits) else
      none

def parse? (text : Text) : Option Int :=
  match trim isPadding text with
  | '+' :: rest => (unsigned? rest).map Int.ofNat
  | '-' :: rest => (unsigned? rest).map fun n => -(n : Int)
  | rest => (unsigned? rest).map Int.ofNat

end Integer

end Showcase

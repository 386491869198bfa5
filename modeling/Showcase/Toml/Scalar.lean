import Showcase.Text.Hex
import Showcase.Text.Integer
import Showcase.Toml.Moment

/-!
# TOML numbers and words

An integer is decimal with an optional sign, or has a base in front:
hexadecimal, octal or binary.  A float has a fraction or an exponent or is a
word.  Single underscores may stand between digits.
-/

namespace Showcase.Toml

def words : List (Text × Value) :=
  [("true".toList, .boolean true), ("false".toList, .boolean false),
   ("inf".toList, .float (.infinite false)),
   ("+inf".toList, .float (.infinite false)),
   ("-inf".toList, .float (.infinite true)), ("nan".toList, .float .nan),
   ("+nan".toList, .float .nan), ("-nan".toList, .float .nan)]

/-! ## Digits -/

def moreDigits (isDigit : Char → Bool) : Text → Text × Text
  | [] => ([], [])
  | '_' :: c :: rest =>
      if isDigit c then
        let (digits, after) := moreDigits isDigit rest
        (c :: digits, after)
      else ([], '_' :: c :: rest)
  | c :: rest =>
      if isDigit c then
        let (digits, after) := moreDigits isDigit rest
        (c :: digits, after)
      else ([], c :: rest)

def readDigits (isDigit : Char → Bool) (text : Text) : Option (Text × Text) :=
  match text with
  | c :: rest =>
      if isDigit c then
        let (digits, after) := moreDigits isDigit rest
        some (c :: digits, after)
      else none
  | [] => none

def valueIn (base : Nat) (digits : Text) : Nat :=
  digits.foldl (fun n c => base * n + (hexDigit? c).getD 0) 0

def isHexDigit (c : Char) : Bool := (hexDigit? c).isSome

def isOctalDigit (c : Char) : Bool := '0' ≤ c && c ≤ '7'

def isBinaryDigit (c : Char) : Bool := c == '0' || c == '1'

/-! ## Numbers -/

def readBased (text : Text) : Option (Nat × Text) :=
  match text with
  | '0' :: 'x' :: rest => (readDigits isHexDigit rest).map fun (ds, after) =>
      (valueIn 16 ds, after)
  | '0' :: 'o' :: rest => (readDigits isOctalDigit rest).map fun (ds, after) =>
      (valueIn 8 ds, after)
  | '0' :: 'b' :: rest => (readDigits isBinaryDigit rest).map fun (ds, after) =>
      (valueIn 2 ds, after)
  | _ => none

def readSign (text : Text) : Bool × Text :=
  match text with
  | '+' :: rest => (false, rest)
  | '-' :: rest => (true, rest)
  | _ => (false, text)

/-- The integer part of a decimal number, without leading zeros. -/
def readWhole (text : Text) : Option (Text × Text) :=
  match text with
  | '0' :: rest => some (['0'], rest)
  | _ => readDigits Char.isDigit text

def readFraction (text : Text) : Option (Text × Text) :=
  match text with
  | '.' :: rest => readDigits Char.isDigit rest
  | _ => none

def readExponent (text : Text) : Option (Int × Text) :=
  match text with
  | e :: rest =>
      if e = 'e' ∨ e = 'E' then
        let (negative, rest) := readSign rest
        (readDigits Char.isDigit rest).map fun (digits, after) =>
          let size : Int := valueIn 10 digits
          (if negative then -size else size, after)
      else none
  | [] => none

/-- A decimal number: an integer if it has neither fraction nor exponent. -/
def readDecimal (text : Text) : Except Fault (Value × Text) := do
  let (negative, unsigned) := readSign text
  let (whole, rest) ← required (readWhole unsigned)
  let fraction := readFraction rest
  let afterFraction := (fraction.map (·.2)).getD rest
  let exponent := readExponent afterFraction
  match fraction, exponent with
  | none, none =>
      if Integer.maxDigits < whole.length then .error .longInteger
      else
        let size : Int := valueIn 10 whole
        return (.integer (if negative then -size else size), rest)
  | _, _ =>
      let places := (fraction.map (·.1)).getD []
      let power := (exponent.map (·.1)).getD 0 - places.length
      return (.float (.ofDecimal negative (valueIn 10 (whole ++ places)) power),
        (exponent.map (·.2)).getD afterFraction)

def readScalar (text : Text) : Except Fault (Value × Text) :=
  match words.find? fun (word, _) => word.isPrefixOf text with
  | some (word, value) => .ok (value, text.drop word.length)
  | none =>
      match readDateTime text with
      | some (date, value, after) => if date.isReal then .ok (value, after) else
          .error .malformed
      | none =>
          match readTime text, readBased text with
          | some (time, after), _ => .ok (.time time, after)
          | none, some (n, after) => .ok (.integer n, after)
          | none, none => readDecimal text

end Showcase.Toml

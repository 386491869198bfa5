import Showcase.Json.Value
import Showcase.Number.Shortest
import Showcase.Text.Hex

/-!
# Writing JSON

`compact` writes a value on one line in ASCII: everything else is escaped, and
a character beyond U+FFFF as a surrogate pair.  `indented` writes each entry on
its own line and leaves all characters but the control characters as they are.
-/

namespace Showcase.Json

def shortEscape? (n : Nat) : Option Text :=
  if n = 0x22 then some ['\\', '"']
  else if n = 0x5C then some ['\\', '\\']
  else if n = 0x0A then some ['\\', 'n']
  else if n = 0x0D then some ['\\', 'r']
  else if n = 0x09 then some ['\\', 't']
  else if n = 0x0C then some ['\\', 'f']
  else if n = 0x08 then some ['\\', 'b']
  else none

def unicodeEscape (n : Nat) : Text := '\\' :: 'u' :: hex4 n

/-! ## One line -/

def compactPoint (p : CodePoint) : Text :=
  match shortEscape? p.val with
  | some escape => escape
  | none =>
      if 0x20 ≤ p.val ∧ p.val ≤ 0x7E then [Char.ofNat p.val]
      else if p.val < 0x10000 then unicodeEscape p.val
      else
        unicodeEscape (0xD800 + (p.val - 0x10000) / 0x400)
          ++ unicodeEscape (0xDC00 + (p.val - 0x10000) % 0x400)

def compactString (points : List CodePoint) : Text :=
  '"' :: points.flatMap compactPoint ++ ['"']

def integer (n : Int) : Text :=
  if n < 0 then '-' :: Nat.toDigits 10 n.natAbs else Nat.toDigits 10 n.natAbs

mutual

def compact : Json → Text
  | null => "null".toList
  | bool true => "true".toList
  | bool false => "false".toList
  | int n => integer n
  | double d => d.render
  | string points => compactString points
  | array elements => '[' :: compactElements elements ++ [']']
  | object members => '\x7b' :: compactMembers members ++ ['\x7d']

def compactElements : List Json → Text
  | [] => []
  | [value] => compact value
  | value :: values => compact value ++ ", ".toList ++ compactElements values

def compactMembers : List (Key × Json) → Text
  | [] => []
  | [(key, value)] => compactString key ++ ": ".toList ++ compact value
  | (key, value) :: members =>
      compactString key ++ ": ".toList ++ compact value ++ ", ".toList ++
        compactMembers members

end

/-! ## One line for each entry -/

def plainPoint (p : CodePoint) : List CodePoint :=
  match shortEscape? p.val with
  | some escape => toPoints escape
  | none => if p.val < 0x20 then toPoints (unicodeEscape p.val) else [p]

def plainString (points : List CodePoint) : List CodePoint :=
  .ofChar '"' :: points.flatMap plainPoint ++ [.ofChar '"']

def newLine (depth : Nat) : List CodePoint :=
  toPoints ('\n' :: List.replicate (2 * depth) ' ')

mutual

/-- A value whose entries stand one level deeper than `depth`. -/
def indentedAt (depth : Nat) : Json → List CodePoint
  | string points => plainString points
  | array [] => toPoints "[]".toList
  | array (element :: elements) =>
      .ofChar '[' :: indentedElements (depth + 1) (element :: elements)
        ++ newLine depth ++ [.ofChar ']']
  | object [] => toPoints ['\x7b', '\x7d']
  | object (member :: members) =>
      .ofChar '\x7b' :: indentedMembers (depth + 1) (member :: members)
        ++ newLine depth ++ [.ofChar '\x7d']
  | null => toPoints "null".toList
  | bool true => toPoints "true".toList
  | bool false => toPoints "false".toList
  | int n => toPoints (integer n)
  | double d => toPoints d.render

def indentedElements (depth : Nat) : List Json → List CodePoint
  | [] => []
  | [value] => newLine depth ++ indentedAt depth value
  | value :: values =>
      newLine depth ++ indentedAt depth value ++ .ofChar ',' ::
        indentedElements depth values

def indentedMembers (depth : Nat) : List (Key × Json) → List CodePoint
  | [] => []
  | [(key, value)] =>
      newLine depth ++ plainString key ++ toPoints ": ".toList ++
        indentedAt depth value
  | (key, value) :: members =>
      newLine depth ++ plainString key ++ toPoints ": ".toList ++
        indentedAt depth value ++ .ofChar ',' :: indentedMembers depth members

end

def indented (json : Json) : List CodePoint := indentedAt 0 json

end Showcase.Json

import Showcase.Json.Value
import Showcase.Text.Hex

/-!
# Reading JSON

The grammar of RFC 8259 with the number words `NaN`, `Infinity` and
`-Infinity`.  Control characters inside strings are refused, and so are an
integer of more than 4300 digits and arrays and objects that nest too deep,
each of which is its own kind of fault.
-/

namespace Showcase.Json

inductive Fault where
  | malformed
  | longInteger
  | tooDeep
  deriving DecidableEq, Repr

def isSpace (c : Char) : Bool := c == ' ' || c == '\t' || c == '\n' || c == '\r'

def skipSpace (text : Text) : Text := text.dropWhile isSpace

/-! ## Strings -/

/-- The first piece of a string's body `first :: rest`: the code point it
stands for and how many characters of `rest` it takes.  Two escapes that form
a surrogate pair are one piece. -/
def stringUnit? (first : Char) (rest : Text) : Option (CodePoint × Nat) :=
  if first = '\\' then
    match rest with
    | '"' :: _ => some (.ofChar '"', 1)
    | '\\' :: _ => some (.ofChar '\\', 1)
    | '/' :: _ => some (.ofChar '/', 1)
    | 'b' :: _ => some (.ofChar '\x08', 1)
    | 'f' :: _ => some (.ofChar '\x0c', 1)
    | 'n' :: _ => some (.ofChar '\n', 1)
    | 'r' :: _ => some (.ofChar '\r', 1)
    | 't' :: _ => some (.ofChar '\t', 1)
    | 'u' :: a :: b :: c :: d :: more =>
        match hexPoint? [a, b, c, d] with
        | none => none
        | some high =>
            match high.isHigh, more with
            | true, '\\' :: 'u' :: e :: f :: g :: h :: _ =>
                match hexPoint? [e, f, g, h] with
                | some low =>
                    if low.isLow then some (.ofChar (CodePoint.joined high low), 11)
                    else some (high, 5)
                | none => none
            | _, _ => some (high, 5)
    | _ => none
  else if first.toNat < 0x20 then none
  else some (.ofChar first, 0)

def readString : Text → Option (List CodePoint × Text)
  | [] => none
  | first :: rest =>
      if first = '"' then some ([], rest)
      else
        match stringUnit? first rest with
        | none => none
        | some (point, n) =>
            (readString (rest.drop n)).map fun (points, after) =>
              (point :: points, after)
termination_by text => text.length

/-! ## Numbers -/

def digitsValue (digits : Text) : Nat :=
  digits.foldl (fun n c => 10 * n + (c.toNat - '0'.toNat)) 0

def fraction? (text : Text) : Option (Text × Text) :=
  match text with
  | '.' :: rest =>
      let digits := rest.takeWhile Char.isDigit
      if digits.isEmpty then none else some (digits, rest.dropWhile Char.isDigit)
  | _ => none

def exponent? (text : Text) : Option (Int × Text) :=
  let unsigned := fun (rest : Text) (sign : Int) =>
    let digits := rest.takeWhile Char.isDigit
    if digits.isEmpty then none
    else some (sign * digitsValue digits, rest.dropWhile Char.isDigit)
  match text with
  | e :: rest =>
      if e = 'e' ∨ e = 'E' then
        match rest with
        | '+' :: rest => unsigned rest 1
        | '-' :: rest => unsigned rest (-1)
        | rest => unsigned rest 1
      else none
  | [] => none

/-- The number behind an optional minus sign.  It is an integer if it has
neither a fraction nor an exponent. -/
def readNumber (negative : Bool) (text : Text) : Except Fault (Json × Text) :=
  let digits := match text with
    | '0' :: _ => ['0']
    | _ => text.takeWhile Char.isDigit
  if digits.isEmpty then .error .malformed
  else
    let rest := text.drop digits.length
    let fraction := fraction? rest
    let afterFraction := (fraction.map (·.2)).getD rest
    let exponent := exponent? afterFraction
    match fraction, exponent with
    | none, none =>
        if digits.length ≤ 4300 then
          let value : Int := digitsValue digits
          .ok (.int (if negative then -value else value), rest)
        else .error .longInteger
    | _, _ =>
        let places := (fraction.map (·.1)).getD []
        let power := (exponent.map (·.1)).getD 0 - places.length
        .ok (.double (.ofDecimal negative (digitsValue (digits ++ places)) power),
          (exponent.map (·.2)).getD afterFraction)

/-! ## Values -/

def after? (word text : Text) : Option Text :=
  if word.isPrefixOf text then some (text.drop word.length) else none

def words : List (Text × Json) :=
  [("null".toList, .null), ("true".toList, .bool true),
    ("false".toList, .bool false),
   ("NaN".toList, .double .nan), ("Infinity".toList, .double (.infinite false)),
   ("-Infinity".toList, .double (.infinite true))]

def readScalar (text : Text) : Except Fault (Json × Text) :=
  match words.findSome? fun (word, value) => (after? word text).map (value, ·) with
  | some read => .ok read
  | none =>
      match text with
      | '-' :: rest => readNumber true rest
      | _ => readNumber false text

mutual

/-- The value at the start of a text and what follows it.  The fuel bounds the
number of steps, and `room` how deep arrays and objects may nest. -/
def readValue (fuel room : Nat) (text : Text) : Except Fault (Json × Text) :=
  match fuel with
  | 0 => .error .malformed
  | fuel + 1 =>
      match text with
      | '"' :: rest =>
          match readString rest with
          | some (points, after) => .ok (.string points, after)
          | none => .error .malformed
      | '[' :: rest =>
          match room with
          | 0 => .error .tooDeep
          | room + 1 =>
              match skipSpace rest with
              | ']' :: after => .ok (.array [], after)
              | elements => do
                  let (values, after) ← readElements fuel room elements
                  return (.array values, after)
      | '{' :: rest =>
          match room with
          | 0 => .error .tooDeep
          | room + 1 =>
              match skipSpace rest with
              | '}' :: after => .ok (.object [], after)
              | members => do
                  let (pairs, after) ← readMembers fuel room members
                  return (.object (collect pairs), after)
      | _ => readScalar text

def readElements (fuel room : Nat) (text : Text) :
    Except Fault (List Json × Text) :=
  match fuel with
  | 0 => .error .malformed
  | fuel + 1 => do
      let (value, after) ← readValue fuel room text
      match skipSpace after with
      | ']' :: after => return ([value], after)
      | ',' :: after =>
          let (values, after) ← readElements fuel room (skipSpace after)
          return (value :: values, after)
      | _ => .error .malformed

def readMembers (fuel room : Nat) (text : Text) :
    Except Fault (List (Key × Json) × Text) :=
  match fuel with
  | 0 => .error .malformed
  | fuel + 1 =>
      match text with
      | '"' :: rest =>
          match readString rest with
          | none => .error .malformed
          | some (key, after) =>
              match skipSpace after with
              | ':' :: after => do
                  let (value, after) ← readValue fuel room (skipSpace after)
                  match skipSpace after with
                  | '}' :: after => return ([(key, value)], after)
                  | ',' :: after =>
                      let (pairs, after) ← readMembers fuel room (skipSpace after)
                      return ((key, value) :: pairs, after)
                  | _ => .error .malformed
              | _ => .error .malformed
      | _ => .error .malformed

end

/-- How deep a value may nest: the thousand calls that the stack holds, less
those that lead to the reader or the writer. -/
def usualRoom : Nat := 990

def read (text : Text) (room : Nat := usualRoom) : Except Fault Json := do
  let (value, after) ← readValue (2 * text.length + 2) room (skipSpace text)
  if (skipSpace after).isEmpty then return value else .error .malformed

end Showcase.Json

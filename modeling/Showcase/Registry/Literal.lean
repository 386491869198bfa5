import Showcase.Registry.Token
import Showcase.Text.Hex

/-!
# String literals

`decodePoints` reads what stands between the quotes of a literal; `quote`
writes a text as a literal on one line.  An escape names a code point, and the
code points of a literal have to form whole characters: `joinPairs?` decides.
No file holds a surrogate, but a text that is about to be written may.
-/

namespace Showcase.Registry

/-! ## Reading -/

/-- What a backslash before a character stands for, the characters `u`, `x`
and line feed apart. -/
def escaped (c : Char) : Char :=
  match c with
  | 'n' => '\n'
  | 't' => '\t'
  | 'r' => '\r'
  | 'b' => '\x08'
  | 'f' => '\x0c'
  | 'v' => '\x0b'
  | '0' => '\x00'
  | c => c

/-- The first piece of a literal's body `first :: rest`: the code point it
stands for, if any, and how many characters of `rest` it takes.  The digits
between braces run up to the first closing brace. -/
def unit? (first : Char) (rest : Text) : Option (Option CodePoint × Nat) :=
  if first ≠ '\\' then some (some (.ofChar first), 0)
  else
    match rest with
    | [] => none
    | 'u' :: '{' :: digits =>
        let inner := digits.takeWhile (· ≠ '}')
        if inner.length < digits.length then
          (hexPoint? inner).map fun point => (some point, inner.length + 3)
        else none
    | 'u' :: digits =>
        if 4 ≤ digits.length then
          (hexPoint? (digits.take 4)).map fun point => (some point, 5)
        else none
    | 'x' :: digits =>
        if 2 ≤ digits.length then
          (hexPoint? (digits.take 2)).map fun point => (some point, 3)
        else none
    | '\n' :: _ => some (none, 1)
    | c :: _ => some (some (.ofChar (escaped c)), 1)

/-- The first piece of a body in which surrogates may stand.  A surrogate
stands for itself, with or without a backslash before it. -/
def pointUnit? (first : CodePoint) (rest : List CodePoint) :
    Option (Option CodePoint × Nat) :=
  match first.toChar? with
  | none => some (some first, 0)
  | some c =>
      if c = '\\' ∧ rest.head?.any CodePoint.isSurrogate then some (rest.head?, 1)
      else unit? c (rest.map CodePoint.seen)

def literalPoints? : List CodePoint → Option (List CodePoint)
  | [] => some []
  | first :: rest =>
      match pointUnit? first rest with
      | none => none
      | some (point?, n) => (literalPoints? (rest.drop n)).map (point?.toList ++ ·)
termination_by body => body.length

def hasInterpolation : Text → Bool
  | '$' :: '{' :: _ => true
  | _ :: rest => hasInterpolation rest
  | [] => false

def decodePoints (quote : Char) (rest : List CodePoint) : Except Fault Text :=
  if quote = '\x60' ∧ hasInterpolation (rest.map CodePoint.seen) then
    .error .interpolation
  else
    match (literalPoints? rest.dropLast).bind joinPairs? with
    | some value => .ok value
    | none => .error .malformedEscape

def decode (quote : Char) (rest : Text) : Except Fault Text :=
  decodePoints quote (toPoints rest)

abbrev LiteralReader := Token → Except Fault Text

def Token.value (token : Token) : Except Fault Text := decode token.first token.rest

def readAt (points : List CodePoint) : LiteralReader := fun token =>
  decodePoints token.first (token.span.slice points).tail

/-! ## Writing -/

/-- A literal is written with the quote it had; a back-tick becomes a double
quote, since a back-tick literal would have to escape more. -/
def literalQuote (quote : Text) : Char := if quote = ['\''] then '\'' else '"'

def quoteChar (quote c : Char) : Text :=
  if c = '\\' ∨ c = quote then ['\\', c]
  else
    match c with
    | '\n' => ['\\', 'n']
    | '\t' => ['\\', 't']
    | '\r' => ['\\', 'r']
    | '\x08' => ['\\', 'b']
    | '\x0c' => ['\\', 'f']
    | '\x0b' => ['\\', 'v']
    | c =>
        if c.toNat < 0x20 ∨ c.toNat = 0x2028 ∨ c.toNat = 0x2029 then
          '\\' :: 'u' :: hex4 c.toNat
        else [c]

def quote (value quoteText : Text) : Text :=
  let q := literalQuote quoteText
  q :: value.flatMap (quoteChar q) ++ [q]

def quotePoint (quote : Char) (p : CodePoint) : List CodePoint :=
  match p.toChar? with
  | some c => toPoints (quoteChar quote c)
  | none => [p]

def quotePoints (value : List CodePoint) (quoteText : Text) : List CodePoint :=
  let q := literalQuote quoteText
  .ofChar q :: value.flatMap (quotePoint q) ++ [.ofChar q]

end Showcase.Registry

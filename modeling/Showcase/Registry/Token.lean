import Showcase.Registry.Fault
import Showcase.Registry.Span
import Showcase.Text.Alphanumeric
import Showcase.Text.Blank

/-!
# Tokens

A registry text is read as names, string literals and single punctuation
characters.  White space and comments lie between them, so brackets and commas
inside strings and comments never count as structure.
-/

namespace Showcase.Registry

inductive TokenKind where
  | name
  | string
  | punct
  deriving DecidableEq, Repr

/-- A token with its first character apart, so that no token is empty.  A
punctuation token is one character. -/
structure Token where
  kind : TokenKind
  first : Char
  rest : Text
  start : Nat
  single : kind = .punct → rest = []
  deriving DecidableEq, Repr

namespace Token

@[simp] def name (first : Char) (rest : Text) (start : Nat) : Token :=
  ⟨.name, first, rest, start, nofun⟩

@[simp] def string (quote : Char) (rest : Text) (start : Nat) : Token :=
  ⟨.string, quote, rest, start, nofun⟩

@[simp] def punct (c : Char) (start : Nat) : Token :=
  ⟨.punct, c, [], start, fun _ => rfl⟩

def ofKind (kind : TokenKind) (first : Char) (rest : Text) (start : Nat) : Token :=
  match kind with
  | .name => name first rest start
  | .string => string first rest start
  | .punct => punct first start

def text (token : Token) : Text := token.first :: token.rest

def stop (token : Token) : Nat := token.start + token.text.length

def span (token : Token) : Span := ⟨token.start, token.stop⟩

def isPunct (token : Token) (c : Char) : Bool :=
  token.kind == .punct && token.first == c

def isPunctIn (token : Token) (cs : List Char) : Bool :=
  token.kind == .punct && cs.contains token.first

end Token

def isNameChar (c : Char) : Bool := isAlphanumeric c || c == '_' || c == '$'

def isQuote (c : Char) : Bool := c == '"' || c == '\'' || c == '\x60'

/-! ## Pieces -/

/-- The characters after an opening quote up to and with its first unescaped
equal.  Only a back-tick literal may run over a line feed. -/
def closing? (quote : Char) : Text → Option Nat
  | [] => none
  | '\\' :: [] => none
  | '\\' :: _ :: rest => (closing? quote rest).map (· + 2)
  | c :: rest =>
      if c = quote then some 1
      else if c = '\n' ∧ quote ≠ '\x60' then none
      else (closing? quote rest).map (· + 1)

def commentEnd? : Text → Option Nat
  | '*' :: '/' :: _ => some 2
  | _ :: rest => (commentEnd? rest).map (· + 1)
  | [] => none

/-- What the text `first :: rest` starts with: a token of some kind or, with
`none`, a gap; and how many characters of `rest` belong to it. -/
def piece (first : Char) (rest : Text) : Except Fault (Option TokenKind × Nat) :=
  if isBlank first then
    .ok (none, (rest.takeWhile isBlank).length)
  else if first = '/' ∧ rest.head? = some '/' then
    .ok (none, (rest.takeWhile (· ≠ '\n')).length)
  else if first = '/' ∧ rest.head? = some '*' then
    match commentEnd? rest.tail with
    | some n => .ok (none, n + 1)
    | none => .error .unterminatedComment
  else if isQuote first then
    match closing? first rest with
    | some n => .ok (some .string, n)
    | none => .error .unterminatedString
  else if isNameChar first then
    .ok (some .name, (rest.takeWhile isNameChar).length)
  else
    .ok (some .punct, 0)

def tokensFrom (start : Nat) : Text → Except Fault (List Token)
  | [] => .ok []
  | first :: rest => do
      let (kind?, n) ← piece first rest
      let later ← tokensFrom (start + 1 + n) (rest.drop n)
      match kind? with
      | none => return later
      | some kind => return .ofKind kind first (rest.take n) start :: later
termination_by text => text.length

def tokenize (text : Text) : Except Fault (List Token) := tokensFrom 0 text

end Showcase.Registry

import Showcase.Text.Hex
import Showcase.Text.Utf8

/-!
# Percent escapes

A request path is matched after its escapes are decoded, except those of the
slash and of the percent sign, which would change how it is split.  Escapes
that are not UTF-8 stay as they are.  `restore` decodes the two that were kept.
-/

namespace Showcase.Http

/-- An escape of a path as it was spelled, with its byte. -/
structure Escape where
  spelling : Text
  byte : UInt8
  deriving DecidableEq, Repr

def spellings (escapes : List Escape) : Text := escapes.flatMap (·.spelling)

def keepSeparators (c : Char) : Text :=
  if c = '/' then "%2F".toList else if c = '%' then "%25".toList else [c]

/-- What an escape adds to a path behind escapes that are still incomplete,
and the escapes that are incomplete now. -/
def addEscape (pending : List Escape) (escape : Escape) : Text × List Escape :=
  let bytes := pending.map (·.byte) ++ [escape.byte]
  match Utf8.character? bytes with
  | some c => (keepSeparators c, [])
  | none =>
      if Utf8.isBeginning bytes then ([], pending ++ [escape])
      else
        match Utf8.character? [escape.byte] with
        | some c => (spellings pending ++ keepSeparators c, [])
        | none =>
            if Utf8.isBeginning [escape.byte] then (spellings pending, [escape])
            else (spellings pending ++ escape.spelling, [])

def decodeFrom (pending : List Escape) : Text → Text
  | [] => spellings pending
  | '%' :: a :: b :: rest =>
      match hexNumber? [a, b] with
      | some byte =>
          let (decoded, pending) := addEscape pending ⟨['%', a, b], byte.toUInt8⟩
          decoded ++ decodeFrom pending rest
      | none => spellings pending ++ '%' :: decodeFrom [] (a :: b :: rest)
  | c :: rest => spellings pending ++ c :: decodeFrom [] rest

def decodePath (path : Text) : Text := decodeFrom [] path

def replaceEscape (a b new : Char) : Text → Text
  | [] => []
  | '%' :: x :: y :: rest =>
      if x = a ∧ y = b then new :: replaceEscape a b new rest
      else '%' :: replaceEscape a b new (x :: y :: rest)
  | c :: rest => c :: replaceEscape a b new rest

def restore (text : Text) : Text :=
  replaceEscape '2' '5' '%' (replaceEscape '2' 'F' '/' text)

def isPathChar (c : Char) : Bool :=
  c.isAlphanum || "-._~!$'()*,+&=;@:/".toList.contains c

def upperHex (n : Nat) : Char := (hexChar n).toUpper

def escapeChar (c : Char) : Text :=
  if isPathChar c || c == '%' then [c]
  else
    (Utf8.encode [c]).toList.flatMap fun b =>
      ['%', upperHex (b.toNat / 16), upperHex (b.toNat % 16)]

def encodePath (text : Text) : Text := text.flatMap escapeChar

end Showcase.Http

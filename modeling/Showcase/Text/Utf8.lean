import Showcase.Text.CodePoint

/-!
# UTF-8

Files and request bodies are byte strings.  `decode?` reads exactly the byte
strings that `encode` writes: truncated, overlong and surrogate sequences are
refused, and a byte order mark is an ordinary character.
-/

namespace Showcase.Utf8

def encode (text : Text) : ByteArray := (String.ofList text).toUTF8

def decode? (bytes : ByteArray) : Option Text :=
  (String.fromUTF8? bytes).map String.toList

def size (text : Text) : Nat := text.foldl (fun n c => n + c.utf8Size) 0

/-! ## Sequences that are not complete -/

/-- How many bytes follow a first byte, and the range of the second. -/
def continuation? (first : UInt8) : Option (Nat × UInt8 × UInt8) :=
  if first < 0x80 then some (0, 0x80, 0xBF)
  else if first < 0xC2 then none
  else if first < 0xE0 then some (1, 0x80, 0xBF)
  else if first = 0xE0 then some (2, 0xA0, 0xBF)
  else if first = 0xED then some (2, 0x80, 0x9F)
  else if first < 0xF0 then some (2, 0x80, 0xBF)
  else if first = 0xF0 then some (3, 0x90, 0xBF)
  else if first < 0xF4 then some (3, 0x80, 0xBF)
  else if first = 0xF4 then some (3, 0x80, 0x8F)
  else none

/-- Whether bytes are the beginning of the encoding of one character, or all
of it. -/
def isBeginning : List UInt8 → Bool
  | [] => true
  | first :: rest =>
      match continuation? first with
      | none => false
      | some (count, low, high) =>
          rest.length ≤ count
            && (rest.take 1).all (fun b => low ≤ b && b ≤ high)
            && (rest.drop 1).all (fun b => 0x80 ≤ b && b ≤ 0xBF)

def character? (bytes : List UInt8) : Option Char :=
  match decode? ⟨bytes.toArray⟩ with
  | some [c] => some c
  | _ => none

end Showcase.Utf8

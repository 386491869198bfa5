import Showcase.Toml.Value

/-!
# TOML dates and times

A date is `YYYY-MM-DD`, a time `HH:MM:SS` with an optional fraction.  A date
can be followed by a time, which can be followed by an offset from UTC; what
does not complete one of them is left unread.
-/

namespace Showcase.Toml

def digitValue (c : Char) : Nat := c.toNat - '0'.toNat

def readTwo (low high : Nat) (text : Text) : Option (Nat × Text) :=
  match text with
  | a :: b :: rest =>
      let n := 10 * digitValue a + digitValue b
      if a.isDigit && b.isDigit && low ≤ n && n ≤ high then some (n, rest) else none
  | _ => none

def readChar (c : Char) (text : Text) : Option Text :=
  match text with
  | first :: rest => if first = c then some rest else none
  | [] => none

def readDate (text : Text) : Option (Date × Text) := do
  let (century, rest) ← readTwo 0 99 text
  let (year, rest) ← readTwo 0 99 rest
  let rest ← readChar '-' rest
  let (month, rest) ← readTwo 1 12 rest
  let rest ← readChar '-' rest
  let (day, rest) ← readTwo 1 31 rest
  return (⟨100 * century + year, month, day⟩, rest)

/-- The millionths that a fraction's digits say; further digits are dropped. -/
def micros (digits : Text) : Nat :=
  ((digits ++ List.replicate 6 '0').take 6).foldl (fun n c => 10 * n +
    digitValue c) 0

def readMicros (text : Text) : Nat × Text :=
  match text with
  | '.' :: rest =>
      let digits := rest.takeWhile Char.isDigit
      if digits.isEmpty then (0, text) else (micros digits, rest.drop digits.length)
  | _ => (0, text)

def readTime (text : Text) : Option (Time × Text) := do
  let (hour, rest) ← readTwo 0 23 text
  let rest ← readChar ':' rest
  let (minute, rest) ← readTwo 0 59 rest
  let rest ← readChar ':' rest
  let (second, rest) ← readTwo 0 59 rest
  let (micro, rest) := readMicros rest
  return (⟨hour, minute, second, micro⟩, rest)

def readHours (sign : Int) (text : Text) : Option (Int × Text) := do
  let (hours, rest) ← readTwo 0 23 text
  let rest ← readChar ':' rest
  let (minutes, rest) ← readTwo 0 59 rest
  return (sign * (60 * hours + minutes), rest)

def readOffset (text : Text) : Option (Int × Text) :=
  match text with
  | 'Z' :: rest | 'z' :: rest => some (0, rest)
  | '+' :: rest => readHours 1 rest
  | '-' :: rest => readHours (-1) rest
  | _ => none

def readDayTime (text : Text) : Option (Time × Text) :=
  match text with
  | 'T' :: rest | 't' :: rest | ' ' :: rest => readTime rest
  | _ => none

/-- The date at the start of a text, with the time and the offset behind it. -/
def readDateTime (text : Text) : Option (Date × Value × Text) :=
  match readDate text with
  | none => none
  | some (date, rest) =>
      match readDayTime rest with
      | none => some (date, .date date, rest)
      | some (time, rest) =>
          match readOffset rest with
          | none => some (date, .dateTime date time none, rest)
          | some (offset, rest) =>
              some (date, .dateTime date time (some offset), rest)

end Showcase.Toml

import Showcase.Text.Hex
import Showcase.Toml.Value

/-!
# TOML strings

A string stands between apostrophes, where every character is itself, or
between quotes, where a backslash starts an escape.  Three quotes or
apostrophes enclose a string that may hold line breaks.
-/

namespace Showcase.Toml

def isSpace (c : Char) : Bool := c == ' ' || c == '\t'

def skipSpace (text : Text) : Text := text.dropWhile isSpace

/-- Control characters other than the tab, which no string and no comment may
hold; line feeds are allowed where `lines` says so. -/
def isForbidden (lines : Bool) (c : Char) : Bool :=
  (c.toNat < 0x20 || c.toNat == 0x7F) && c != '\t' && !(lines && c == '\n')

def apostrophe : Char := '\x27'

def readLiteral (lines : Bool) (close : Text) : Text → Option (Text × Text)
  | [] => none
  | c :: rest =>
      if close.isPrefixOf (c :: rest) then some ([], (c :: rest).drop close.length)
      else if isForbidden lines c then none
      else (readLiteral lines close rest).map fun (body, after) =>
        (c :: body, after)

/-! ## Escapes -/

def hexChar? (n : Nat) (text : Text) : Option Char :=
  if n ≤ text.length then (hexPoint? (text.take n)).bind CodePoint.toChar? else none

def escape? (text : Text) : Option (Char × Nat) :=
  match text with
  | 'b' :: _ => some ('\x08', 1)
  | 't' :: _ => some ('\t', 1)
  | 'n' :: _ => some ('\n', 1)
  | 'f' :: _ => some ('\x0c', 1)
  | 'r' :: _ => some ('\r', 1)
  | '"' :: _ => some ('"', 1)
  | '\\' :: _ => some ('\\', 1)
  | 'u' :: digits => (hexChar? 4 digits).map (·, 5)
  | 'U' :: digits => (hexChar? 8 digits).map (·, 9)
  | _ => none

/-- What follows a backslash at the end of a line: the text from the next
character on that is not white space. -/
def nextLine? (text : Text) : Option Text :=
  match skipSpace text with
  | '\n' :: rest => some (rest.dropWhile fun c => isSpace c || c == '\n')
  | _ => none

theorem length_of_nextLine? {text rest : Text} (h : nextLine? text = some rest) :
    rest.length < text.length := by
  unfold nextLine? at h
  split at h
  · next tail found =>
    have shorter : (skipSpace text).length ≤ text.length :=
      (List.dropWhile_suffix isSpace).length_le
    have dropped : (tail.dropWhile fun c => isSpace c || c == '\n').length ≤
        tail.length :=
      (List.dropWhile_suffix _).length_le
    rw [found, List.length_cons] at shorter
    rw [← Option.some.inj h]
    omega
  · contradiction

def readBasic (lines : Bool) : Text → Option (Text × Text)
  | [] => none
  | c :: rest =>
      if c = '"' then
        if lines = false then some ([], rest)
        else if ['"', '"'].isPrefixOf rest then some ([], rest.drop 2)
        else (readBasic lines rest).map fun (body, after) => (c :: body, after)
      else if c = '\\' then
        match h : if lines then nextLine? rest else none with
        | some after =>
            have : after.length < rest.length + 1 := by
              split at h
              · exact Nat.lt_succ_of_lt (length_of_nextLine? h)
              · contradiction
            readBasic lines after
        | none =>
            match escape? rest with
            | some (char, n) =>
                (readBasic lines (rest.drop n)).map fun (body, after) =>
                  (char :: body, after)
            | none => none
      else if isForbidden lines c then none
      else (readBasic lines rest).map fun (body, after) => (c :: body, after)
termination_by text => text.length

/-! ## Strings -/

/-- A string over several lines whose closing delimiter is read.  Up to two
more quotes belong to the string; a line feed at its start does not. -/
def withQuotes (quote : Char) (read? : Option (Text × Text)) :
    Option (Text × Text) :=
  read?.map fun (body, after) =>
    let more := (after.takeWhile (· == quote)).take 2
    (body ++ more, after.drop more.length)

def skipNewline (text : Text) : Text :=
  match text with
  | '\n' :: rest => rest
  | _ => text

def readString (text : Text) : Option (Text × Text) :=
  if ['"', '"', '"'].isPrefixOf text then
    withQuotes '"' (readBasic true (skipNewline (text.drop 3)))
  else if [apostrophe, apostrophe, apostrophe].isPrefixOf text then
    withQuotes apostrophe
      (readLiteral true [apostrophe, apostrophe, apostrophe]
        (skipNewline (text.drop 3)))
  else
    match text with
    | '"' :: rest => readBasic false rest
    | '\x27' :: rest => readLiteral false [apostrophe] rest
    | _ => none

/-! ## Keys -/

def isBare (c : Char) : Bool := c.isAlphanum || c == '-' || c == '_'

def readName (text : Text) : Option (Text × Text) :=
  match text with
  | '"' :: rest => readBasic false rest
  | '\x27' :: rest => readLiteral false [apostrophe] rest
  | _ =>
      let name := text.takeWhile isBare
      if name.isEmpty then none else some (name, text.drop name.length)

/-- The names of a key, separated by points, and what follows it and the space
behind it.  The fuel bounds their number. -/
def readNames : Nat → Text → Option (Key × Text)
  | 0, _ => none
  | fuel + 1, text =>
      match readName text with
      | none => none
      | some (name, after) =>
          match skipSpace after with
          | '.' :: rest =>
              (readNames fuel (skipSpace rest)).map fun (names, after) =>
                (name :: names, after)
          | after => some ([name], after)

def readKey (text : Text) : Option (Key × Text) := readNames text.length text

def readAssigned (text : Text) : Option (Key × Text) :=
  match readKey text with
  | some (key, '=' :: after) => some (key, skipSpace after)
  | _ => none

end Showcase.Toml

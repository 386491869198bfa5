import Showcase.Text.CodePoint
import Showcase.Text.Utf8

/-!
# Paths

A path is a sequence of names behind one, two or no leading slashes.  Empty
names and single dots are dropped when a path is read; double dots are kept,
because what they mean depends on links.
-/

namespace Showcase.Files

def splitSlash : Text → List Text
  | [] => [[]]
  | '/' :: rest => [] :: splitSlash rest
  | c :: rest =>
      match splitSlash rest with
      | [] => [[c]]
      | part :: parts => (c :: part) :: parts

def joinSlash : List Text → Text
  | [] => []
  | [part] => part
  | part :: parts => part ++ '/' :: joinSlash parts

structure Path where
  slashes : Nat
  parts : List Text
  deriving DecidableEq, Repr

namespace Path

def isPart (name : Text) : Bool := !name.isEmpty && name != ['.']

/-- Exactly two leading slashes are kept, any other number counts as one. -/
def parse (text : Text) : Path :=
  let leading := (text.takeWhile (· == '/')).length
  ⟨if leading = 0 then 0 else if leading = 2 then 2 else 1,
    (splitSlash text).filter isPart⟩

def toText (path : Path) : Text :=
  if path.slashes = 0 ∧ path.parts = [] then ['.']
  else List.replicate path.slashes '/' ++ joinSlash path.parts

def join (base path : Path) : Path :=
  if path.slashes = 0 then ⟨base.slashes, base.parts ++ path.parts⟩ else path

def name (path : Path) : Text := path.parts.getLast?.getD []

def endsInName (path : Path) : Bool := !path.name.isEmpty && path.name != ['.', '.']

def parent (path : Path) : Path := ⟨path.slashes, path.parts.dropLast⟩

/-- The path with its last name replaced.  The new name has to be a single
component and must not end in a slash. -/
def withName? (path : Path) (name : Text) : Option Path :=
  let read := parse name
  if path.parts = [] ∨ name.getLast? = some '/' ∨ read.slashes ≠ 0 ∨
    read.parts.length ≠ 1 then none
  else some ⟨path.slashes, path.parts.dropLast ++ [name]⟩

def hasNul (path : Path) : Bool := path.parts.any (·.contains '\x00')

end Path

/-- A position in the file tree: the names on the way from its root. -/
abbrev Place := List Text

def normalize (names : List Text) : Place :=
  names.foldl (fun place name =>
    if name = ['.', '.'] then place.dropLast
    else if Path.isPart name then place ++ [name]
    else place) []

def Path.ofPlace (place : Place) : Path := ⟨1, place⟩

end Showcase.Files

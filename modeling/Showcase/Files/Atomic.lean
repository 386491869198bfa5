import Showcase.Files.Change

/-!
# Whole-file reads and atomic writes

A document is read as a whole, without any change to its line ends, and
written through a temporary file beside it that takes its place in one step,
so that a reader never sees a part of it.
-/

namespace Showcase.Files.Tree

def readText (tree : Tree) (path : Path) : Except Failure Text :=
  match tree.readFile path with
  | .ok content =>
      match Utf8.decode? content with
      | some text => .ok text
      | none => .error .storage
  | .error (.system _) => .error .storage
  | .error failure => .error failure

/-! ## Temporary files -/

def temporaryName (name : Text) (n : Nat) : Text :=
  let digits := Nat.toDigits 10 n
  '.' :: name ++ '-' :: List.replicate (8 - digits.length) '0' ++
    digits ++ ".tmp".toList

def freshName (tree : Tree) (directory : Place) (name : Text) : Text :=
  let unused := fun n => (tree.get? (directory ++ [temporaryName name n])).isNone
  temporaryName name (((List.range (tree.entries.length + 1)).find? unused).getD 0)

/-- The directory of a path, with its double dots removed by name only. -/
def temporaryDirectory (tree : Tree) (path : Path) : Place :=
  normalize ((if path.slashes = 0 then tree.here else []) ++ path.parent.parts)

def createTemporary (tree : Tree) (path : Path) :
    Except Failure (Place × Tree) := do
  if path.hasNul then .error .embeddedNul
  let directory := Path.ofPlace (tree.temporaryDirectory path)
  let spot ← tree.locate .follow directory
  let name := tree.freshName spot.place path.name
  let spot ← tree.locate .keep (directory.join ⟨0, [name]⟩)
  if tree.canChange spot.place then
    return (spot.place, tree.set spot.place (.file ByteArray.empty 0o600))
  else .error (.system .accessDenied)

def moveTo (tree : Tree) (place : Place) (path : Path) : Outcome Unit :=
  match tree.locate .keep path with
  | .error failure => (.error failure, tree)
  | .ok target =>
      if (tree.canChange place && tree.canChange target.place) = false then
        (.error (.system .accessDenied), tree)
      else if (target.found?.map Entry.isDirectory).getD false then
        (.error (.system .isDirectory), tree)
      else
        match tree.get? place with
        | none => (.error (.system .noEntry), tree)
        | some entry => (.ok (), (tree.erase place).set target.place entry)

def modeFor (tree : Tree) (path : Path) : Except Failure Nat := do
  if ← tree.doesExist path then
    return (← tree.stat path).mode
  else return 0o600

/-- Writes a document.  After a failure of the system the temporary file is
removed; a text that cannot be encoded leaves an empty one behind. -/
def writeAtomic (tree : Tree) (path : Path) (points : List CodePoint) :
    Outcome Unit :=
  match tree.createTemporary path with
  | .error (.system _) => (.error .storage, tree)
  | .error failure => (.error failure, tree)
  | .ok (place, created) =>
      match scalars? points with
      | none => (.error .unencodable, created)
      | some text =>
          match created.modeFor path with
          | .error _ => (.error .storage, created.erase place)
          | .ok mode =>
              match (created.set place (.file (Utf8.encode text) mode)).moveTo
                place path with
              | (.ok (), after) => (.ok (), after)
              | (.error _, after) => (.error .storage, after.erase place)

def writeText (tree : Tree) (path : Path) (text : Text) : Outcome Unit :=
  tree.writeAtomic path (toPoints text)

end Showcase.Files.Tree

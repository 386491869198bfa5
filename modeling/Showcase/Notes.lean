import Showcase.Files.Atomic
import Showcase.Json.Reader
import Showcase.Json.Writer
import Showcase.Text.Blank

/-!
# Notes

The notes are one JSON object that maps version ids to notes.  It is read as a
whole and replaced as a whole; nothing is ever merged.  Neither can be done to
arrays and objects that nest deeper than the calls have `room` on the stack.
-/

namespace Showcase.Notes

open Files

/-- The mapping of a notes file; an absent or blank file holds the empty one. -/
def read (tree : Tree) (path : Path) (room : Nat := Json.usualRoom) :
    Except Failure Json := do
  if ← tree.doesExist path then
    let text ← tree.readText path
    if text.all isBlank then return .object []
    match Json.read text room with
    | .error .malformed => .error .storage
    | .error .longInteger => .error .longInteger
    | .error .tooDeep => .error .recursion
    | .ok (.object members) => return .object members
    | .ok _ => .error .storage
  else return .object []

def check (mapping : Json) : Except Failure Unit :=
  match mapping with
  | .object members =>
      if members.all (·.2.isObject) then .ok () else
        .error (.refused .noteNotObject)
  | _ => .error (.refused .notesNotObject)

def replace (tree : Tree) (path : Path) (mapping : Json)
    (room : Nat := Json.usualRoom) :
    Outcome Unit :=
  match check mapping with
  | .error failure => (.error failure, tree)
  | .ok () =>
      match tree.makeDirectories path.parent with
      | (.error (.system _), after) => (.error .storage, after)
      | (.error failure, after) => (.error failure, after)
      | (.ok (), after) =>
          if mapping.depth ≤ room then after.writeAtomic path mapping.indented
          else (.error .recursion, after)

end Showcase.Notes

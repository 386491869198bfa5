import Showcase.Files.Tree

/-!
# Real paths

`realPath` finds the place that a path denotes when every link on the way is
resolved.  The path need not exist: behind the last entry that can be looked
up, the remaining names are taken as they are.  A link that leads back to itself
is a failure.
-/

namespace Showcase.Files.Tree

abbrev Resolved := List (Place × Option Place)

/-- How far resolution came: to a place, or to a link that is met while it is
being resolved, with the names that remain. -/
inductive Progress where
  | place (place : Place) (resolved : Resolved)
  | loop (names : List Text)

def visible? (tree : Tree) (place : Place) : Option Entry :=
  if tree.isReachable place then tree.get? place else none

def hasNul (name : Text) : Bool := name.contains '\x00'

/-- Names behind other names.  An empty name in front, as a double slash
leaves it, makes them start from the root. -/
def rejoin (front names : List Text) : List Text :=
  match names with
  | [] :: _ :: _ => names
  | _ => front ++ names

def resolveNames (tree : Tree) (fuel : Nat) (resolved : Resolved) (place : Place) :
    List Text → Except Failure Progress
  | [] => .ok (.place place resolved)
  | name :: names =>
      if Path.isPart name = false then tree.resolveNames fuel resolved place names
      else if name = ['.', '.'] then
        tree.resolveNames fuel resolved place.dropLast names
      else if hasNul name then .error .embeddedNul
      else
        let next := place ++ [name]
        match tree.visible? next with
        | some (.link target) =>
            match resolved.lookup next with
            | some (some known) => tree.resolveNames fuel resolved known names
            | some none => .ok (.loop (rejoin next names))
            | none =>
                match fuel with
                | 0 => .ok (.loop (rejoin next names))
                | fuel + 1 =>
                    match tree.resolveNames fuel ((next, none) :: resolved)
                      (origin place target)
                        (splitSlash target) with
                    | .error failure => .error failure
                    | .ok (.loop inner) => .ok (.loop (rejoin inner names))
                    | .ok (.place found resolved) =>
                        tree.resolveNames (fuel + 1) ((next, some found) ::
                          resolved) found names
        | _ => tree.resolveNames fuel resolved next names
termination_by names => (fuel, names.length)

/-- The place of a path with all links resolved.  However many links lead to
links, and however long the path of an entry that is looked up, resolution goes
on: the limits of the system, a thousand calls inside one another and `maxPath`,
are not kept here.  Nor is the double slash that the names behind a loop can
start with: such a place lies below the root like any other. -/
def realPath (tree : Tree) (path : Path) : Except Failure Place := do
  let start := if path.slashes = 0 then tree.here else []
  let progress ← tree.resolveNames (tree.entries.length + 1) [] start path.parts
  let place := match progress with
    | .place place _ => place
    | .loop names => normalize names
  match tree.stat (Path.ofPlace place) with
  | .error (.system .tooManyLinks) => .error .linkLoop
  | .error .embeddedNul => .error .embeddedNul
  | _ => return place

end Showcase.Files.Tree

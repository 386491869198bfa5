import Showcase.Files.Change
import Showcase.Files.RealPath
import Showcase.Json.Value
import Showcase.Text.Blank

/-!
# Companion files

A record's component lives in a file of its own, its companion, which the
registry imports by a path relative to the versions directory.  `resolve` maps
such a path to a file strictly inside that directory.
-/

namespace Showcase

def hasPair {α : Type} [DecidableEq α] (a b : α) : List α → Bool
  | x :: y :: rest => (x == a && y == b) || hasPair a b (y :: rest)
  | _ => false

def isUnsafeId (id : List CodePoint) : Bool :=
  id.contains (.ofChar '/') || id.contains (.ofChar '\\') ||
    id.contains (.ofChar '\x00')
    || hasPair (.ofChar '.') (.ofChar '.') id || id.head? == some (.ofChar '.')

def checkId (id : Json) : Except Failure (List CodePoint) :=
  match id with
  | .string points =>
      if points.all CodePoint.isBlank then .error (.refused .missingId)
      else if isUnsafeId points then .error (.refused .unsafeId)
      else .ok points
  | _ => .error (.refused .missingId)

/-- Where companion files live, and the endings that an import may leave out. -/
structure Companions where
  root : Files.Path
  extensions : List Text
  deriving DecidableEq, Repr

namespace Companions

open Files

def defaultExtensions : List Text :=
  [".tsx".toList, ".ts".toList, ".jsx".toList, ".js".toList]

/-- The paths tried for a place: the place itself, then each ending added. -/
def candidates (companions : Companions) (base : Place) :
    Except Failure (List Path) := do
  let path := Path.ofPlace base
  let extended ← companions.extensions.mapM fun extension =>
    match path.withName? (path.name ++ extension) with
    | some extended => Except.ok extended
    | none => .error .invalidName
  return path :: extended

def firstFile? (tree : Tree) : List Path → Except Failure (Option Path)
  | [] => .ok none
  | path :: paths => do
      if ← tree.isFile path then return some path else firstFile? tree paths

/-- The place that an import path denotes, strictly inside the root. -/
def locate (companions : Companions) (tree : Tree) (source : Text) :
    Except Failure Place := do
  if !"./".toList.isPrefixOf source then .error (.refused .importNotRelative)
  let root ← tree.realPath companions.root
  let base ← tree.realPath ((Path.ofPlace root).join (Path.parse source))
  if root.isPrefixOf base && base != root then return base
  else .error (.refused .importOutside)

def resolve (companions : Companions) (tree : Tree) (source : Text) :
    Except Failure (Option Path) := do
  let base ← companions.locate tree source
  firstFile? tree (← companions.candidates base)

def remove (companions : Companions) (tree : Tree) (source : Text) : Outcome Bool :=
  match companions.resolve tree source with
  | .error failure => (.error failure, tree)
  | .ok none => (.ok false, tree)
  | .ok (some path) =>
      match tree.unlink path with
      | (.ok (), after) => (.ok true, after)
      | (.error _, _) => (.ok false, tree)

end Companions

end Showcase

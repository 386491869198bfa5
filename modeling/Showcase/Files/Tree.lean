import Showcase.Files.Entry
import Showcase.Failure

/-!
# File trees

A file tree holds an entry for every place that exists.  Relative paths start
from the place `here`.  `walk` follows names and links from a directory as the
system does, with at most forty links on the way.
-/

namespace Showcase.Files

structure Tree where
  entries : List (Place × Entry)
  here : Place
  deriving DecidableEq

namespace Tree

def newDirectory : Entry := .directory 0o755

/-- The entry at a place; the root is always there. -/
def get? (tree : Tree) (place : Place) : Option Entry :=
  match tree.entries.lookup place with
  | some entry => some entry
  | none => if place = [] then some newDirectory else none

def erase (tree : Tree) (place : Place) : Tree :=
  { tree with entries := tree.entries.filter (·.1 ≠ place) }

def set (tree : Tree) (place : Place) (entry : Entry) : Tree :=
  { tree with entries := (place, entry) :: (tree.erase place).entries }

theorem lookup_erase (tree : Tree) (place other : Place) :
    (tree.erase place).entries.lookup other =
      if other = place then none else tree.entries.lookup other := by
  unfold erase
  induction tree.entries with
  | nil => simp
  | cons entry entries ih =>
      obtain ⟨p, e⟩ := entry
      by_cases same : p = place
      · subst same
        by_cases hit : other = p
        · subst hit
          simpa using ih
        · have miss : (other == p) = false := by simpa using hit
          simpa [List.lookup_cons, miss, hit] using ih
      · by_cases hit : other = p
        · subst hit
          simp [same]
        · have miss : (other == p) = false := by simpa using hit
          simpa [List.lookup_cons, same, miss] using ih

theorem get?_erase (tree : Tree) {place : Place} (other : Place) (h : place ≠ []) :
    (tree.erase place).get? other = if other = place then none else
      tree.get? other := by
  unfold get?
  rw [lookup_erase]
  by_cases hit : other = place
  · subst hit
    simp [h]
  · simp [hit]

theorem get?_set (tree : Tree) (place other : Place) (entry : Entry) :
    (tree.set place entry).get? other = if other = place then some entry else
      tree.get? other := by
  have erased := tree.lookup_erase place other
  unfold get? set
  by_cases hit : other = place
  · subst hit
    simp
  · have miss : (other == place) = false := by simpa using hit
    rw [if_neg hit] at erased
    simp [List.lookup_cons, miss, hit, erased]

def isDirectoryAt (tree : Tree) (place : Place) : Bool :=
  match tree.get? place with
  | some entry => entry.isDirectory
  | none => false

def permits (tree : Tree) (place : Place) (right : Right) : Bool :=
  match tree.get? place with
  | some entry => entry.permits right
  | none => false

def isReachable (tree : Tree) (place : Place) : Bool :=
  (List.range place.length).all fun depth => tree.permits (place.take depth) .search

/-- The names of a path or of a link's target.  A slash at the end, which asks
for a directory, gives an empty name. -/
def components (text : Text) : List Text :=
  let parts := (splitSlash text).filter (!·.isEmpty)
  if text.getLast? = some '/' ∧ parts ≠ [] then parts ++ [[]] else parts

def origin (base : Place) (text : Text) : Place :=
  if text.head? = some '/' then [] else base

def maxName : Nat := 255

/-- The longest path, in bytes, without the byte that ends it. -/
def maxPath : Nat := 4095

def maxLinks : Nat := 40

structure Spot where
  place : Place
  found? : Option Entry
  deriving DecidableEq

/-- What a walk does at its last name: it keeps to a link there, it follows one,
or it follows one to where a file is to be. -/
inductive Ending where
  | keep
  | follow
  | create
  deriving DecidableEq, Repr

/-- Follows names from a place.  All but the last have to exist.  Where a file is
to be, a slash behind the last name is a mistake whatever the name leads to. -/
def walk (tree : Tree) (ending : Ending) (links : Nat) (place : Place) :
    List Text → Except SystemError Spot
  | [] => .ok ⟨place, tree.get? place⟩
  | name :: names =>
      if tree.isDirectoryAt place = false then .error .notDirectory
      else if name = [] then tree.walk ending links place names
      else if tree.permits place .search = false then .error .accessDenied
      else if name = ['.'] then tree.walk ending links place names
      else if name = ['.', '.'] then tree.walk ending links place.dropLast names
      else if ending = .create ∧ names = [[]] then .error .isDirectory
      else if maxName < Utf8.size name then .error .nameTooLong
      else
        let next := place ++ [name]
        match tree.get? next with
        | none => if names.isEmpty then .ok ⟨next, none⟩ else .error .noEntry
        | some (.link target) =>
            if names.isEmpty ∧ ending = .keep then .ok ⟨next, some (.link target)⟩
            else if target = [] then .error .noEntry
            else
              match links with
              | 0 => .error .tooManyLinks
              | links + 1 =>
                  tree.walk ending links (origin place target)
                    (components target ++ names)
        | some _ => tree.walk ending links next names
termination_by names => (links, names.length)

def locate (tree : Tree) (ending : Ending) (path : Path) : Except Failure Spot :=
  if path.hasNul then .error .embeddedNul
  else if maxPath < Utf8.size path.toText then .error (.system .nameTooLong)
  else
    (tree.walk ending maxLinks (origin tree.here path.toText)
      (components path.toText)).mapError .system

def stat (tree : Tree) (path : Path) : Except Failure Entry := do
  match (← tree.locate .follow path).found? with
  | some entry => return entry
  | none => .error (.system .noEntry)

/-- Whether a path leads to an entry with property `p`.  A path that leads
nowhere does not; an overlong name or a directory that cannot be searched is a
failure. -/
def test (tree : Tree) (p : Entry → Bool) (path : Path) : Except Failure Bool :=
  match tree.stat path with
  | .ok entry => .ok (p entry)
  | .error (.system .noEntry) | .error (.system .notDirectory)
  | .error (.system .tooManyLinks) | .error .embeddedNul => .ok false
  | .error failure => .error failure

def doesExist (tree : Tree) (path : Path) : Except Failure Bool :=
  tree.test (fun _ => true) path

def isFile (tree : Tree) (path : Path) : Except Failure Bool :=
  tree.test Entry.isFile path

def isDirectory (tree : Tree) (path : Path) : Except Failure Bool :=
  tree.test Entry.isDirectory path

def readFile (tree : Tree) (path : Path) : Except Failure ByteArray := do
  let entry ← tree.stat path
  if entry.permits .read = false then .error (.system .accessDenied)
  else
    match entry with
    | .file content _ => return content
    | .directory _ => .error (.system .isDirectory)
    | .link _ => .error (.system .noEntry)

end Tree

end Showcase.Files

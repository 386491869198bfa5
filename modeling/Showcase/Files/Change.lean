import Showcase.Files.Tree

/-!
# Changes of a file tree

Each operation answers and leaves a tree behind; a failing one may have
changed the tree before it failed.
-/

namespace Showcase.Files

/-- The answer of an operation and the tree after it. -/
abbrev Outcome (α : Type) := Except Failure α × Tree

namespace Tree

/-- Whether entries can be added to and taken from the directory that holds a
place. -/
def canChange (tree : Tree) (place : Place) : Bool :=
  tree.permits place.dropLast .write

def writeFile (tree : Tree) (path : Path) (content : ByteArray) : Outcome Unit :=
  match tree.locate .create path with
  | .error failure => (.error failure, tree)
  | .ok ⟨place, none⟩ =>
      if tree.canChange place then (.ok (), tree.set place (.file content 0o644))
      else (.error (.system .accessDenied), tree)
  | .ok ⟨place, some (.file old mode)⟩ =>
      if (Entry.file old mode).permits .write then
        (.ok (), tree.set place (.file content (modeAfterWrite mode)))
      else (.error (.system .accessDenied), tree)
  | .ok ⟨_, some _⟩ => (.error (.system .isDirectory), tree)

def unlink (tree : Tree) (path : Path) : Outcome Unit :=
  match tree.locate .keep path with
  | .error failure => (.error failure, tree)
  | .ok ⟨_, none⟩ => (.error (.system .noEntry), tree)
  | .ok ⟨place, some entry⟩ =>
      if path.endsInName = false then (.error (.system .isDirectory), tree)
      else if tree.canChange place = false then
        (.error (.system .accessDenied), tree)
      else if entry.isDirectory then (.error (.system .isDirectory), tree)
      else (.ok (), tree.erase place)

def setMode (tree : Tree) (path : Path) (mode : Nat) : Outcome Unit :=
  match tree.locate .follow path with
  | .error failure => (.error failure, tree)
  | .ok ⟨_, none⟩ => (.error (.system .noEntry), tree)
  | .ok ⟨place, some entry⟩ => (.ok (), tree.set place (entry.withMode mode))

def addEntry (tree : Tree) (path : Path) (entry : Entry) : Outcome Unit :=
  match tree.locate .keep path with
  | .error failure => (.error failure, tree)
  | .ok ⟨_, some _⟩ => (.error (.system .exists), tree)
  | .ok ⟨place, none⟩ =>
      if tree.canChange place then (.ok (), tree.set place entry)
      else (.error (.system .accessDenied), tree)

def makeLink (tree : Tree) (path : Path) (target : Text) : Outcome Unit :=
  if target.contains '\x00' then (.error .embeddedNul, tree)
  else if target = [] then (.error (.system .noEntry), tree)
  else if maxPath < Utf8.size target then (.error (.system .nameTooLong), tree)
  else tree.addEntry path (.link target)

def makeDirectory (tree : Tree) (path : Path) : Outcome Unit :=
  tree.addEntry path newDirectory

/-- The outcome of a creation that failed: none the worse if the directory is
there already. -/
def acceptDirectory (tree : Tree) (path : Path) (failure : Failure) :
    Outcome Unit :=
  match failure with
  | .system .noEntry => (.error failure, tree)
  | .system _ =>
      match tree.isDirectory path with
      | .ok true => (.ok (), tree)
      | .ok false => (.error failure, tree)
      | .error failure => (.error failure, tree)
  | failure => (.error failure, tree)

def makeDirectories (tree : Tree) (path : Path) : Outcome Unit :=
  match tree.makeDirectory path with
  | (.ok (), after) => (.ok (), after)
  | (.error (.system .noEntry), _) =>
      if path.parts = [] then (.error (.system .noEntry), tree)
      else
        match tree.makeDirectories path.parent with
        | (.error failure, after) => (.error failure, after)
        | (.ok (), above) =>
            match above.makeDirectory path with
            | (.ok (), after) => (.ok (), after)
            | (.error failure, _) => above.acceptDirectory path failure
  | (.error failure, _) => tree.acceptDirectory path failure
termination_by path.parts.length
decreasing_by
  cases h : path.parts with
  | nil => contradiction
  | cons => simp [Path.parent, h]

end Tree

end Showcase.Files

import Showcase.Files.Path

/-!
# Entries of a file tree

An entry is a directory, a file with its bytes, or a symbolic link.  Its mode
says what may be done with it.  All entries belong to the user who runs the
program, so that of a mode's rights only the owner's count.
-/

namespace Showcase.Files

inductive Entry where
  | directory (mode : Nat)
  | file (content : ByteArray) (mode : Nat)
  | link (target : Text)

instance : DecidableEq Entry
  | .directory m, .directory n => decidable_of_iff (m = n) (by simp)
  | .file c m, .file d n =>
      decidable_of_iff (c.data = d.data ∧ m = n) (by simp [ByteArray.ext_iff])
  | .link s, .link t => decidable_of_iff (s = t) (by simp)
  | .directory _, .file _ _ | .directory _, .link _ | .file _ _, .directory _
  | .file _ _, .link _ | .link _, .directory _ | .link _, .file _ _ =>
      .isFalse (by simp)

/-- What an entry can be used for.  To search a directory is to look a name up
in it. -/
inductive Right where
  | read
  | write
  | search
  deriving DecidableEq, Repr

def Right.bit : Right → Nat
  | read => 0o400
  | write => 0o200
  | search => 0o100

namespace Entry

def isDirectory : Entry → Bool
  | directory _ => true
  | _ => false

def isFile : Entry → Bool
  | file _ _ => true
  | _ => false

def mode : Entry → Nat
  | directory mode => mode
  | file _ mode => mode
  | link _ => 0o777

def withMode (entry : Entry) (mode : Nat) : Entry :=
  match entry with
  | directory _ => directory (mode % 0o10000)
  | file content _ => file content (mode % 0o10000)
  | link target => link target

def permits (entry : Entry) (right : Right) : Bool :=
  entry.mode / right.bit % 2 == 1

end Entry

/-- The mode of a file after a write.  A file that changed no longer runs with
its owner's rights, nor with its group's if the group may run it. -/
def modeAfterWrite (mode : Nat) : Nat :=
  let kept := mode % 0o4000
  if mode / 0o10 % 2 = 1 then kept % 0o2000 else kept

end Showcase.Files

import Showcase.Files.Change

/-!
# The disk

A `Tree` is loaded from the disk as far as an operation needs it, and the
operation's changes are stored afterwards.  A link is loaded with the real path
that it leads to.
-/

namespace Showcase.Disk

open Files

def spelling (place : Place) : String := String.ofList ('/' :: joinSlash place)

def readEntry (place : Place) : IO (Option Entry) := do
  let file := (← IO.currentDir) / spelling place
  try
    match (← file.symlinkMetadata).type with
    | .dir => return some Tree.newDirectory
    | .file => return some (.file (← IO.FS.readBinFile file) 0o644)
    | .symlink => return some (.link (← IO.FS.realPath file).toString.toList)
    | .other => return none
  catch _ => return none

/-- Adds the entries on the way from one place along further names. -/
partial def loadNames (tree : Tree) (place : Place) (names : List Text) :
  IO Tree := do
  match names with
  | [] => return tree
  | name :: names =>
      if Path.isPart name = false then loadNames tree place names
      else if name = ['.', '.'] then loadNames tree place.dropLast names
      else
        let next := place ++ [name]
        match ← readEntry next with
        | none => return tree
        | some (.link target) =>
            loadNames (tree.set next (.link target)) [] (splitSlash target ++ names)
        | some entry => loadNames (tree.set next entry) next names

partial def loadBelow (tree : Tree) (place : Place) : IO Tree := do
  if tree.isDirectoryAt place = false then return tree
  let mut tree := tree
  for child in ← ((← IO.currentDir) / spelling place).readDir do
    let next := place ++ [child.fileName.toList]
    tree ← loadNames tree place [child.fileName.toList]
    tree ← loadBelow tree next
  return tree

def namesOf (tree : Tree) (path : Path) : List Text :=
  if path.slashes = 0 then tree.here ++ path.parts else path.parts

def loadPath (tree : Tree) (path : Path) : IO Tree :=
  loadNames tree [] (namesOf tree path)

/-- Adds the entries on the way to a directory and all below it. -/
def loadDirectory (tree : Tree) (path : Path) : IO Tree := do
  let tree ← loadPath tree path
  match tree.locate .follow path with
  | .ok spot => loadBelow tree spot.place
  | .error _ => return tree

def rights (bits : Nat) : IO.AccessRight :=
  ⟨bits / 4 % 2 == 1, bits / 2 % 2 == 1, bits % 2 == 1⟩

def storeEntry (before : Tree) (place : Place) (entry : Entry) : IO Unit := do
  let file := (← IO.currentDir) / spelling place
  match entry with
  | .directory _ => IO.FS.createDir file
  | .file content mode =>
      IO.FS.writeBinFile file content
      if (before.get? place).isNone then
        IO.setAccessRights file ⟨rights (mode / 64), rights (mode / 8), rights mode⟩
  | .link _ => return ()

def store (before after : Tree) : IO Unit := do
  for (place, _) in before.entries do
    if (after.get? place).isNone then
      IO.FS.removeFile ((← IO.currentDir) / spelling place)
  for (place, entry) in after.entries.reverse do
    if before.get? place ≠ some entry then storeEntry before place entry

end Showcase.Disk

import Showcase.Files.Tree

/-!
# Listings

A listing shows what lies below a directory, by path text.  `differences`
compares two listings and is sorted by path.
-/

namespace Showcase.Files

abbrev Listing := List (Text × Entry)

namespace Tree

def canList (tree : Tree) (place : Place) : Bool :=
  tree.isReachable place && tree.permits place .read

/-- Whether a place is found on the way down from the directory that relative
paths start from. -/
def isListed (tree : Tree) (place : Place) : Bool :=
  tree.here.isPrefixOf place && tree.here.length < place.length
    && (List.range' tree.here.length (place.length - tree.here.length)).all
    fun depth =>
      tree.canList (place.take depth)

def canShow (tree : Tree) (place : Place) (entry : Entry) : Bool :=
  match entry with
  | .directory _ => true
  | .file _ _ => tree.isReachable place && entry.permits .read
  | .link _ => tree.isReachable place

/-- The entries below the directory that relative paths start from.  What lies
in a directory that cannot be read is left out, but a file that cannot be read
is a failure. -/
def listing (tree : Tree) : Except Failure Listing :=
  (tree.entries.filter fun (place, _) => tree.isListed place).mapM fun (place,
    entry) =>
    if tree.canShow place entry then
      .ok (joinSlash (place.drop tree.here.length), entry)
    else .error (.system .accessDenied)

end Tree

def Entry.sameContent : Entry → Entry → Bool
  | .directory _, .directory _ => true
  | .file content _, .file content' _ => content == content'
  | .link target, .link target' => target == target'
  | _, _ => false

def differences (before after : Listing) : List (Text × Option Entry) :=
  let gone := before.filterMap fun (path, _) =>
    if (after.lookup path).isNone then some (path, none) else none
  let changed := after.filterMap fun (path, entry) =>
    match before.lookup path with
    | some old => if old.sameContent entry then none else some (path, some entry)
    | none => some (path, some entry)
  (gone ++ changed).mergeSort fun a b => precedes a.1 b.1

end Showcase.Files

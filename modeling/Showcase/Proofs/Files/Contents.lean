import Showcase.Proofs.Files.Links
import Showcase.Proofs.Files.Writing

/-!
# Trees that differ in what files hold

What a file holds has no part in where a path leads: trees with the same
directories and links, and with files of the same modes at the same places,
resolve every path alike (`SameForm.walk_eq`, `SameForm.realPath_eq`).
-/

namespace Showcase.Files

/-- The entry without what a file holds. -/
def Entry.hollow : Entry → Entry
  | .file _ mode => .file ByteArray.empty mode
  | entry => entry

@[simp] theorem Entry.isDirectory_hollow (entry : Entry) :
    entry.hollow.isDirectory = entry.isDirectory := by
  cases entry <;> rfl

@[simp] theorem Entry.permits_hollow (entry : Entry) (right : Right) :
    entry.hollow.permits right = entry.permits right := by
  cases entry <;> rfl

private theorem Entry.hollow_eq_link {entry : Entry} {target : Text} :
    entry.hollow = .link target ↔ entry = .link target := by
  cases entry <;> simp [hollow]

namespace Tree

/-- Where a path leads, without what a file there holds. -/
def Spot.hollow (spot : Spot) : Spot := ⟨spot.place, spot.found?.map Entry.hollow⟩

/-- Trees that differ in what files hold, and in nothing else. -/
structure SameForm (tree tree' : Tree) : Prop where
  here : tree'.here = tree.here
  get?_hollow : ∀ place, (tree'.get? place).map Entry.hollow =
    (tree.get? place).map Entry.hollow

namespace SameForm

variable {tree tree' : Tree}

theorem symm (same : SameForm tree tree') : SameForm tree' tree :=
  ⟨same.here.symm, fun place => (same.get?_hollow place).symm⟩

theorem isDirectoryAt_eq (same : SameForm tree tree') (place : Place) :
    tree'.isDirectoryAt place = tree.isDirectoryAt place := by
  have hollow := same.get?_hollow place
  unfold isDirectoryAt
  cases there : tree.get? place <;> cases there' : tree'.get? place <;> simp_all
  next entry entry' =>
    rw [← Entry.isDirectory_hollow entry', hollow, Entry.isDirectory_hollow]

private theorem permits_eq (same : SameForm tree tree') (place : Place)
    (right : Right) :
    tree'.permits place right = tree.permits place right := by
  have hollow := same.get?_hollow place
  unfold permits
  cases there : tree.get? place <;> cases there' : tree'.get? place <;> simp_all
  next entry entry' =>
    rw [← Entry.permits_hollow entry', hollow, Entry.permits_hollow]

private theorem get?_link_iff (same : SameForm tree tree') (place : Place)
    (target : Text) :
    tree'.get? place = some (.link target) ↔
      tree.get? place = some (.link target) := by
  have hollow := same.get?_hollow place
  have link (found? : Option Entry) :
      found?.map Entry.hollow = some (.link target) ↔
        found? = some (.link target) := by
    cases found? <;> simp [Entry.hollow_eq_link]
  rw [← link, hollow, link]

private theorem get?_eq_none_iff (same : SameForm tree tree') {place : Place} :
    tree'.get? place = none ↔ tree.get? place = none := by
  rw [← Option.map_eq_none_iff (f := Entry.hollow), same.get?_hollow,
    Option.map_eq_none_iff]

private theorem exists_of_get? (same : SameForm tree tree') {place : Place}
    {entry : Entry} (found : tree.get? place = some entry) :
    ∃ entry', tree'.get? place = some entry' ∧ entry'.hollow = entry.hollow := by
  have hollow := same.get?_hollow place
  rw [found, Option.map_some] at hollow
  exact Option.map_eq_some_iff.1 hollow

theorem enters {ending : Ending} {place : Place} {name : Text} {names : List Text}
    (same : SameForm tree tree') (there : tree.Enters ending place name names) :
    tree'.Enters ending place name names :=
  ⟨by rw [same.isDirectoryAt_eq]; exact there.directory,
    by rw [same.permits_eq]; exact there.search,
    there.proper, there.noSlash, there.short⟩

theorem sameLinks (same : SameForm tree tree') : tree.SameLinks tree' := by
  refine ⟨same.here, fun place target => ?_⟩
  have reachable : tree'.isReachable place = tree.isReachable place := by
    unfold isReachable
    simp only [same.permits_eq]
  unfold visible?
  rw [reachable]
  split
  · exact same.get?_link_iff place target
  · simp

theorem walk_eq (same : SameForm tree tree') (ending : Ending) (links : Nat)
    (place : Place) (names : List Text) :
    (tree'.walk ending links place names).map Spot.hollow =
      (tree.walk ending links place names).map Spot.hollow := by
  have directory' {place : Place} {there : Bool}
      (h : tree.isDirectoryAt place = there) :
      tree'.isDirectoryAt place = there := (same.isDirectoryAt_eq place).trans h
  have search' {place : Place} {granted : Bool}
      (h : tree.permits place .search = granted) :
      tree'.permits place .search = granted :=
        (same.permits_eq place .search).trans h
  induction links, place, names using walk_induction tree ending with
  | stay links place =>
      rw [walk, walk]
      exact congrArg (fun found? => Except.ok (Spot.mk place found?))
        (same.get?_hollow place)
  | notDirectory _ _ _ _ directory =>
      rw [walk_notDirectory directory, walk_notDirectory (directory' directory)]
  | empty _ _ _ directory ih =>
      rw [walk_empty directory, walk_empty (directory' directory), ih]
  | noSearch _ _ _ _ directory nonempty search =>
      rw [walk_noSearch directory nonempty search,
        walk_noSearch (directory' directory) nonempty (search' search)]
  | dot _ _ _ directory search ih =>
      rw [walk_dot directory search,
        walk_dot (directory' directory) (search' search), ih]
  | up _ _ _ directory search ih =>
      rw [walk_up directory search,
        walk_up (directory' directory) (search' search), ih]
  | slash _ _ _ _ directory search proper slash =>
      rw [walk_slash directory search proper slash,
        walk_slash (directory' directory) (search' search) proper slash]
  | long _ _ _ _ directory search proper noSlash long =>
      rw [walk_long directory search proper noSlash long,
        walk_long (directory' directory) (search' search) proper noSlash long]
  | enters links place name names enters fewer shorter =>
      have enters' := same.enters enters
      rcases tree.get?_cases (place ++ [name]) with absent | ⟨target, there⟩ |
        ⟨entry, there, notLink⟩
      · rw [enters.walk_eq, enters'.walk_eq, same.get?_eq_none_iff.2 absent, absent]
      · rw [enters.walk_eq, enters'.walk_eq, (same.get?_link_iff _ _).2 there,
          there]
        dsimp only
        split
        · rfl
        split
        · rfl
        cases links with
        | zero => rfl
        | succ links => exact fewer _ _ _ (Nat.lt_succ_self links)
      · obtain ⟨entry', there', hollow⟩ := same.exists_of_get? there
        have notLink' (target : Text) : entry' ≠ .link target := by
          rintro rfl
          exact notLink target (Entry.hollow_eq_link.1 hollow.symm)
        rw [enters.walk_next there notLink, enters'.walk_next there' notLink']
        exact shorter _

theorem locate_eq (same : SameForm tree tree') (ending : Ending) (path : Path) :
    (tree'.locate ending path).map Spot.hollow =
      (tree.locate ending path).map Spot.hollow := by
  unfold locate
  split
  · rfl
  split
  · rfl
  have walked := same.walk_eq ending maxLinks (origin tree.here path.toText)
    (components path.toText)
  rw [same.here]
  revert walked
  cases tree.walk ending maxLinks (origin tree.here path.toText)
    (components path.toText) <;>
    cases tree'.walk ending maxLinks (origin tree.here path.toText)
      (components path.toText) <;>
    simp

theorem locate_cases (same : SameForm tree tree') (ending : Ending) (path : Path) :
    (∃ failure, tree.locate ending path = .error failure ∧
      tree'.locate ending path = .error failure) ∨
      ∃ place found? found?', tree.locate ending path = .ok ⟨place, found?⟩ ∧
        tree'.locate ending path = .ok ⟨place, found?'⟩ ∧
        found?'.map Entry.hollow = found?.map Entry.hollow := by
  have located := same.locate_eq ending path
  cases there : tree.locate ending path with
  | error failure =>
      rw [there] at located
      exact .inl ⟨failure, rfl, map_eq_error_iff.1 located⟩
  | ok spot =>
      rw [there] at located
      obtain ⟨⟨place', found?'⟩, there', hollow⟩ := map_eq_ok_iff.1 located
      obtain ⟨rfl, found⟩ := Spot.mk.inj hollow
      exact .inr ⟨_, _, _, rfl, there', found⟩

private theorem stat_cases (same : SameForm tree tree') (path : Path) :
    (∃ failure, tree.stat path = .error failure ∧
      tree'.stat path = .error failure) ∨
      ∃ entry entry', tree.stat path = .ok entry ∧ tree'.stat path = .ok entry' ∧
        entry'.hollow = entry.hollow := by
  unfold stat
  rcases same.locate_cases .follow path with
    ⟨failure, there, there'⟩ | ⟨place, found?, found?', there, there', found⟩
  · exact .inl ⟨failure, by rw [there]; rfl, by rw [there']; rfl⟩
  rw [there, there', ok_bind, ok_bind]
  cases found? with
  | none =>
      obtain rfl : found?' = none := by simpa using found
      exact .inl ⟨_, rfl, rfl⟩
  | some entry =>
      obtain ⟨entry', rfl, hollow⟩ := Option.map_eq_some_iff.1 found
      exact .inr ⟨entry, entry', rfl, rfl, hollow⟩

private theorem test_eq (same : SameForm tree tree') {p : Entry → Bool}
    (blind : ∀ entry, p entry.hollow = p entry) (path : Path) :
    tree'.test p path = tree.test p path := by
  unfold test
  rcases same.stat_cases path with ⟨failure, found, found'⟩ |
    ⟨entry, entry', found, found', hollow⟩
  · rw [found, found']
  · rw [found, found']
    dsimp only
    rw [← blind entry', hollow, blind]

theorem isFile_eq (same : SameForm tree tree') (path : Path) :
    tree'.isFile path = tree.isFile path :=
  same.test_eq (fun entry => by cases entry <;> rfl) path

theorem realPath_eq (same : SameForm tree tree') (path : Path) :
    tree'.realPath path = tree.realPath path := by
  have progress := same.sameLinks.progressOf_eq path
  unfold progressOf at progress
  unfold realPath
  dsimp only
  rw [progress]
  refine bind_congr fun progress => ?_
  cases progress with
  | place place names =>
      rcases same.stat_cases (Path.ofPlace place) with ⟨_, found, found'⟩ |
        ⟨_, _, found, found', -⟩
      · rw [found, found']
      · rw [found, found']
  | loop names =>
      rcases same.stat_cases (Path.ofPlace (normalize names)) with
        ⟨_, found, found'⟩ | ⟨_, _, found, found', -⟩
      · rw [found, found']
      · rw [found, found']

theorem unlink_fst_eq (same : SameForm tree tree') (path : Path) :
    (tree'.unlink path).1 = (tree.unlink path).1 := by
  have mayChange (place : Place) : tree'.canChange place = tree.canChange place :=
    same.permits_eq _ _
  unfold unlink
  rcases same.locate_cases .keep path with
    ⟨failure, there, there'⟩ | ⟨place, found?, found?', there, there', found⟩
  · rw [there, there']
  rw [there, there']
  cases found? with
  | none =>
      obtain rfl : found?' = none := by simpa using found
      rfl
  | some entry =>
      obtain ⟨entry', rfl, hollow⟩ := Option.map_eq_some_iff.1 found
      have directory : entry'.isDirectory = entry.isDirectory := by
        rw [← Entry.isDirectory_hollow, hollow, Entry.isDirectory_hollow]
      dsimp only
      rw [mayChange, directory]
      simp only [apply_ite Prod.fst]

theorem of_puts {place : Place} {old new : ByteArray} {mode : Nat}
    (there : tree.get? place = some (.file old mode))
    (puts : tree.Puts place (.file new mode) tree') :
    SameForm tree tree' := by
  refine ⟨puts.here, fun other => ?_⟩
  rw [puts.get?_eq]
  split
  next same =>
    rw [same, there]
    rfl
  next => rfl

end SameForm

end Tree

end Showcase.Files

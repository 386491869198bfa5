import Showcase.Proofs.Files.ReadBack

/-!
# Stored documents

A document is missing, or cannot be read, or is a file that a write replaces.
-/

namespace Showcase.Files.Tree

/-- A name that is too long is found to be so in whatever directory a walk leads
to. -/
theorem Leads.walk_of_long {tree : Tree} {links : Nat} {place : Place}
    {names : List Text} {spot : Spot} {name : Text}
    (h : Leads tree .follow links place names spot)
    (directory : tree.isDirectoryAt spot.place = true)
    (search : tree.permits spot.place .search = true)
    (named : isName name = true) (long : maxName < Utf8.size name)
    {ending : Ending} (notCreate : ending ≠ .create) :
    tree.walk ending links place (names ++ [name]) = .error .nameTooLong := by
  have there : spot.found? ≠ none := by
    rw [h.found?_eq]
    intro absent
    simp [isDirectoryAt, absent] at directory
  obtain ⟨links', same⟩ := h.walk_append there (List.cons_ne_nil name []) notCreate
  rw [same]
  exact walk_long directory search (proper_of_isName named) (fun both =>
    notCreate both.1) long

/-- No temporary file can be made for a file whose name leaves no room for more
letters. -/
theorem createTemporary_of_long {tree : Tree} {path : Path} {spot : Spot}
    (proper : path.Proper) (noNul : path.hasNul = false)
    (located : tree.locate .follow (Path.ofPlace (tree.temporaryDirectory path)) =
      .ok spot)
    (named : ∀ name ∈ tree.temporaryDirectory path, isName name = true)
    (directory : tree.isDirectoryAt spot.place = true)
    (search : tree.permits spot.place .search = true)
    (long : maxName < Utf8.size path.name + 14) :
    tree.createTemporary path = .error (.system .nameTooLong) := by
  obtain ⟨n, -, fresh, -⟩ := tree.exists_freshName spot.place path.name
  have isName' := isName_temporaryName_name proper noNul n
  have tooLong := Nat.lt_of_lt_of_le long (size_temporaryName path.name n)
  have named' :=
    List.forall_mem_append.2 ⟨named, List.forall_mem_singleton.2 isName'⟩
  have walked := ((locate_ofPlace_iff named).1 located).2.walk_of_long directory
    search isName' tooLong (show Ending.keep ≠ .create by simp)
  have refused :
      tree.locate .keep ((Path.ofPlace (tree.temporaryDirectory path)).join
      ⟨0, [temporaryName path.name n]⟩) = .error (.system .nameTooLong) := by
    change tree.locate .keep
      (Path.ofPlace (tree.temporaryDirectory path ++ [temporaryName path.name n]))
      = _
    rw [locate, if_neg (by simp [Path.hasNul_ofPlace named'])]
    split
    · rfl
    · rw [components_ofPlace named']
      change (tree.walk .keep maxLinks [] _).mapError Failure.system = _
      rw [walked]
      rfl
  unfold createTemporary
  rw [if_neg (by simp [noNul])]
  simp only [located, ok_bind, fresh, refused]
  rfl

/-- What is stored where a path leads: nothing that can be read, or the bytes of a
file in a directory that can be changed. -/
inductive Stored (tree : Tree) (path : Path) : Option ByteArray → Prop where
  | absent (missing : tree.doesExist path = .ok false) : Stored tree path none
  | closed {entry : Entry} (there : tree.stat path = .ok entry)
      (unreadable : entry.isFile = false ∨ entry.permits .read = false) :
      Stored tree path none
  | file {place : Place} {content : ByteArray} {mode : Nat}
      (there : tree.locate .keep path = .ok ⟨place, some (.file content mode)⟩)
      (readable : (Entry.file content mode).permits .read = true)
      (writable : tree.canChange place = true) : Stored tree path (some content)

/-- What is read where these bytes are stored. -/
def textOf (bytes? : Option ByteArray) : Except Failure Text :=
  match bytes?.bind Utf8.decode? with
  | some text => .ok text
  | none => .error .storage

section

variable {tree : Tree} {path : Path} {bytes? : Option ByteArray}

theorem doesExist_of_stat {entry : Entry} (found : tree.stat path = .ok entry) :
    tree.doesExist path = .ok true := by
  rw [doesExist, test, found]

theorem readText_of_closed {entry : Entry} (found : tree.stat path = .ok entry)
    (unreadable : entry.isFile = false ∨ entry.permits .read = false) :
    tree.readText path = .error .storage := by
  obtain ⟨error, refused⟩ : ∃ error, tree.readFile path =
      .error (.system error) := by
    rw [readFile, found, ok_bind]
    split
    · exact ⟨_, rfl⟩
    next readable =>
      cases entry with
      | file content mode => simp [Entry.isFile, readable] at unreadable
      | directory mode => exact ⟨_, rfl⟩
      | link target => exact ⟨_, rfl⟩
  rw [readText, refused]

theorem Stored.read (h : tree.Stored path bytes?) :
    (tree.doesExist path = .ok false ∧ bytes? = none) ∨
      (tree.doesExist path = .ok true ∧ tree.readText path = textOf bytes?) := by
  cases h with
  | absent missing => exact .inl ⟨missing, rfl⟩
  | closed there unreadable =>
      exact .inr ⟨doesExist_of_stat there, readText_of_closed there unreadable⟩
  | file there readable _ =>
      exact .inr ⟨doesExist_of_stat (stat_of_file there),
        readText_of_stat (stat_of_file there) readable⟩

theorem Replaceable.stored {place : Place} {content : ByteArray} {mode : Nat}
    (h : tree.Replaceable path place)
    (there : tree.get? place = some (.file content mode)) :
    tree.Stored path (some content) := by
  obtain ⟨content', mode', found, readable⟩ := h.file
  have same := locate_found? found
  simp only [there, Option.some.injEq, Entry.file.injEq] at same
  obtain ⟨rfl, rfl⟩ := same
  exact .file found readable h.write

end

/-! ## A name without room for a temporary one -/

def longName : Text := List.replicate 250 'n'

theorem isName_replicate {n : Nat} (nonempty : 0 < n) :
    isName (List.replicate n 'n') = true := by
  refine isName_iff.2 ⟨?_, ?_, by simp [List.mem_replicate],
    by simp [List.mem_replicate]⟩
  · cases n with
    | zero => exact absurd nonempty (Nat.lt_irrefl 0)
    | succ n => simp [Path.isPart, List.replicate_succ]
  · intro same
    have mem : '.' ∈ List.replicate n 'n' := by simp [same]
    simp [List.mem_replicate] at mem

theorem isName_longName : isName longName = true := isName_replicate (by decide)

theorem size_longName : Utf8.size longName = 250 := Utf8.size_replicate 250 'n'

end Showcase.Files.Tree

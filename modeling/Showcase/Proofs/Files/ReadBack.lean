import Mathlib
import Showcase.Proofs.Files.Writing

/-!
# What is read of what was written

A text that is written where a file or nothing is can be read again, and nothing
else in the tree changes (`writeText_reads_back`).
-/

namespace Showcase.Files.Tree

variable {tree after : Tree} {path : Path} {place : Place} {found? : Option Entry}

/-- A temporary file can be made for a path: entries can be added to the
directory that the path has by name, and none of the names that may be tried is
too long. -/
structure HasRoom (tree : Tree) (path : Path) : Prop where
  directory : ∃ above found?,
    tree.locate .follow (Path.ofPlace (tree.temporaryDirectory path)) =
      .ok ⟨above, found?⟩ ∧ tree.isDirectoryAt above = true ∧
        tree.permits above .search = true ∧
        tree.permits above .write = true
  short : ∀ n ≤ tree.entries.length, Utf8.size (temporaryName path.name n) ≤
    maxName ∧
    Utf8.size (Path.ofPlace (tree.temporaryDirectory path ++
      [temporaryName path.name n])).toText ≤ maxPath

theorem HasRoom.exists_temporary (room : tree.HasRoom path)
    (named : tree.Named) (proper : path.Proper) (noNul : path.hasNul = false) :
    ∃ temp, tree.get? temp = none ∧ tree.canChange temp = true ∧
      tree.createTemporary path =
        .ok (temp, tree.set temp (.file ByteArray.empty 0o600)) := by
  obtain ⟨above, found?, located, directory, search, write⟩ := room.directory
  obtain ⟨name, unused, created⟩ :=
    createTemporary_of_room noNul located directory search write
    (isName_of_mem_temporaryDirectory named proper noNul)
    fun n inRange =>
      ⟨isName_temporaryName_name proper noNul n, room.short n inRange⟩
  exact ⟨_, unused, canChange_of_createTemporary created, created⟩

theorem Puts.alike {content : ByteArray} {mode : Nat}
    (puts : tree.Puts place (.file content mode) after)
    (plain : ∀ entry, tree.get? place = some entry → entry.isFile = true) :
    Alike tree after := by
  refine .of_files puts.here fun other => ?_
  by_cases same : other = place
  · subst same
    refine .inr ⟨plain, fun entry there => ?_⟩
    rw [puts.get?_eq, if_pos rfl] at there
    cases there
    rfl
  · exact .inl (by rw [puts.get?_eq, if_neg same])

/-- A text that is written where a readable file or nothing is can be read
again.  The file keeps its mode, a new one is for its owner only, and no other
entry changes. -/
theorem writeText_reads_back (named : tree.Named) (proper : path.Proper)
    (kept : tree.locate .keep path = .ok ⟨place, found?⟩)
    (plain : ∀ entry, found? = some entry → entry.isFile = true ∧
      entry.permits .read = true)
    (writable : tree.canChange place = true) (room : tree.HasRoom path)
    (text : Text) :
    ∃ after, tree.writeText path text = (.ok (), after) ∧
      after.readText path = .ok text ∧
      (after.stat path).map Entry.mode = .ok ((found?.map Entry.mode).getD 0o600) ∧
      tree.Puts place (.file (Utf8.encode text)
        ((found?.map Entry.mode).getD 0o600)) after := by
  have there : found? = tree.get? place := locate_found? kept
  obtain ⟨temp, unused, atTemp, created⟩ :=
    room.exists_temporary named proper (locate_eq_ok_iff.1 kept).1
  have wrote := writeText_of_spot kept
    (fun entry found => (plain entry found).1) unused created atTemp
    writable text
  generalize isMode : (found?.map Entry.mode).getD 0o600 = mode at wrote ⊢
  have readable : (Entry.file (Utf8.encode text) mode).permits .read = true := by
    rw [← isMode]
    cases found? with
    | none => simp [Entry.permits, Entry.mode, Right.bit]
    | some entry => exact (plain entry rfl).2
  have puts : tree.Puts place (.file (Utf8.encode text) mode)
      ((tree.erase temp).set place (.file (Utf8.encode text) mode)) := by
    rw [erase_eq_of_unused unused]
    exact ⟨fun other => tree.get?_set _ _ _, rfl⟩
  have located :=
    (puts.alike fun entry found => (plain entry (there.trans found)).1).locate_eq
    kept
  rw [puts.get?_eq, if_pos rfl] at located
  have stat := stat_of_file located
  refine ⟨_, wrote, ?_, by rw [stat]; rfl, puts⟩
  rw [readText_of_stat stat readable, Utf8.decode?_encode]

/-! ## Double dots behind a link -/

/-- A link into the directory `a`, in which there are a directory `x` and in
that one a file. -/
def linkedTree : Tree :=
  ⟨[([['l']], .link "a/b".toList), ([['a']], newDirectory),
    ([['a'], ['b']], newDirectory),
    ([['a'], ['x']], newDirectory),
    ([['a'], ['x'], ['f']], .file (Utf8.encode "old".toList) 0o644)], []⟩

private theorem named_linkedTree : linkedTree.Named := by simp [Named, linkedTree]

/-- Line ends of all kinds, a null character, a byte order mark and a character
beyond the first plane. -/
def mixedText : Text := "\uFEFFa\rb\nc\r\n\x00😀".toList

/-- A new file in the directory that the link leads into.  By name it would be
in another one. -/
def newPath : Path := Path.parse "l/../g".toList

/-- The file.  Its directory by name is `x`, which is not there. -/
def oldPath : Path := Path.parse "l/../x/f".toList

theorem writeText_reads_back_mixedText : ∃ after,
    linkedTree.writeText newPath mixedText = (.ok (), after) ∧
      after.readText newPath = .ok mixedText ∧
      (after.stat newPath).map Entry.mode = .ok 0o600 ∧
      linkedTree.Puts [['a'], ['g']] (.file (Utf8.encode mixedText) 0o600)
        after := by
  have room : linkedTree.HasRoom newPath :=
    ⟨⟨[], some newDirectory, by cbv, by cbv, by cbv, by cbv⟩, by decide⟩
  exact writeText_reads_back named_linkedTree (Path.proper_parse _) (by cbv)
    (by simp) (by cbv) room mixedText

def secretPath : Path := ⟨0, [['f']]⟩

/-- A file that only may be written. -/
def secretTree (text : Text) : Tree :=
  ⟨[([['f']], .file (Utf8.encode text) 0o200)], []⟩

/-- A file is not written if the directory that its path has by name is not
there, and one that may not be read is written and cannot be read. -/
theorem writeText_behind_link :
    (linkedTree.locate .keep oldPath =
        .ok ⟨[['a'], ['x'], ['f']], some (.file (Utf8.encode "old".toList) 0o644)⟩ ∧
      linkedTree.canChange [['a'], ['x'], ['f']] = true ∧
      linkedTree.writeText oldPath "new".toList = (.error .storage, linkedTree)) ∧
    (secretTree "old".toList).locate .keep secretPath =
        .ok ⟨[['f']], some (.file (Utf8.encode "old".toList) 0o200)⟩ ∧
      (secretTree "old".toList).canChange [['f']] = true ∧
      (secretTree "old".toList).writeText secretPath "new".toList =
        (.ok (), secretTree "new".toList) ∧
      (secretTree "new".toList).readText secretPath = .error .storage := by
  refine ⟨⟨?_, ?_, ?_⟩, ?_, ?_, ?_, ?_⟩
  all_goals cbv

end Showcase.Files.Tree

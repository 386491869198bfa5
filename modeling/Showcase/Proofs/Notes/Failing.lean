import Showcase.Notes
import Showcase.Proofs.Files.Directories
import Showcase.Proofs.Files.Stored

/-!
# What a failing write leaves

A write that fails for a text that can be encoded leaves the tree as it was.
When the notes are not replaced, the directories that were made for them are all
that is left (`replace_traceless`).
-/

namespace Showcase

open Files

namespace Files.Tree

/-- A failing write of a text leaves no trace. -/
private theorem unchanged_of_writeAtomic_error {tree : Tree} {path : Path}
    (named : tree.Named) (proper : path.Proper) {points : List CodePoint}
    {failure : Failure} (isText : scalars? points ≠ none)
    (failed : (tree.writeAtomic path points).1 = .error failure) :
    (tree.writeAtomic path points).2 = tree := by
  rcases writeAtomic_cases named proper points with
    ⟨failure, wrote⟩ | ⟨temp, notText, -⟩ |
      ⟨text, mode, target, after, -, -, -, -, wrote, -⟩
  · rw [wrote]
  · exact absurd notText isText
  · simp [wrote] at failed

end Files.Tree

namespace Notes

theorem check_cases (mapping : Json) :
    check mapping = .ok () ∨ ∃ why, check mapping = .error (.refused why) := by
  unfold check
  split
  · split
    · exact .inl rfl
    · exact .inr ⟨_, rfl⟩
  · exact .inr ⟨_, rfl⟩

theorem replace_cases (tree : Tree) (path : Path) (mapping : Json) (room : Nat) :
    (∃ why, replace tree path mapping room = (.error (.refused why), tree)) ∨
      check mapping = .ok () ∧
        ((∃ failure, replace tree path mapping room =
            (.error failure, (tree.makeDirectories path.parent).2)) ∨
          tree.makeDirectories path.parent =
            (.ok (), (tree.makeDirectories path.parent).2) ∧
            mapping.depth ≤ room ∧ replace tree path mapping room =
              (tree.makeDirectories path.parent).2.writeAtomic path
              mapping.indented) := by
  unfold replace
  rcases check_cases mapping with accepted | ⟨why, refused⟩
  · rw [accepted]
    refine .inr ⟨rfl, ?_⟩
    obtain ⟨made, above⟩ := tree.makeDirectories path.parent
    rcases made with failure | ⟨⟩
    · cases failure <;> exact .inl ⟨_, rfl⟩
    · by_cases deep : mapping.depth ≤ room
      · exact .inr ⟨rfl, deep, if_pos deep⟩
      · exact .inl ⟨_, if_neg deep⟩
  · rw [refused]
    exact .inl ⟨why, rfl⟩

/-- A failing replacement leaves the tree as it was if its argument is refused.
Any other leaves what was there and the directories that were made, all of them
on the way to the notes, if the mapping can be encoded; nothing is made when the
directory is there. -/
theorem replace_traceless {tree : Tree} {path : Path} (named : tree.Named)
    (proper : path.Proper) (room : Nat) :
    (∀ points failure, scalars? points ≠ none →
        (tree.writeAtomic path points).1 = .error failure →
          (tree.writeAtomic path points).2 = tree) ∧
      ∀ mapping failure, scalars? mapping.indented ≠ none →
        (replace tree path mapping room).1 = .error failure →
          (∃ why, failure = .refused why) ∧
          (replace tree path mapping room).2 = tree ∨
          (replace tree path mapping room).2 =
            (tree.makeDirectories path.parent).2 ∧
            tree.Grows path.parent (replace tree path mapping room).2 ∧
            (tree.isDirectory path.parent = .ok true →
              (replace tree path mapping room).2 = tree) := by
  refine ⟨fun points failure isText failed =>
    Tree.unchanged_of_writeAtomic_error named proper isText failed,
    fun mapping failure isText failed => ?_⟩
  have grows := tree.makeDirectories_grows path.parent
  have nothing (there : tree.isDirectory path.parent = .ok true) :
      (tree.makeDirectories path.parent).2 = tree := by
    rw [Tree.makeDirectories_of_isDirectory there]
  rcases replace_cases tree path mapping room with
    ⟨why, refused⟩ | ⟨-, ⟨failure', broken⟩ | ⟨-, -, wrote⟩⟩
  · rw [refused] at failed ⊢
    exact .inl ⟨⟨why, (Except.error.inj failed).symm⟩, rfl⟩
  · rw [broken]
    exact .inr ⟨rfl, grows, nothing⟩
  · have named' : (tree.makeDirectories path.parent).2.Named := by
      unfold Tree.Named
      rw [grows.here]
      exact named
    rw [wrote] at failed ⊢
    rw [Tree.unchanged_of_writeAtomic_error named' proper isText failed]
    exact .inr ⟨rfl, grows, nothing⟩

/-! ## A directory that is left -/

def longNotes : Path := ⟨0, ["new".toList, Tree.longName]⟩

def oneNote : Json := .object [(toPoints "k".toList, .object [])]

def made : Tree := ⟨[(["new".toList], Tree.newDirectory)], []⟩

private theorem makeDirectories_new :
    Tree.makeDirectories ⟨[], []⟩ ⟨0, ["new".toList]⟩ = (.ok (), made) := by
  have enters : (⟨[], []⟩ : Tree).Enters .keep [] "new".toList [] :=
    ⟨rfl, rfl, by decide, by simp, by decide⟩
  have found : (⟨[], []⟩ : Tree).locate .keep ⟨0, ["new".toList]⟩ =
      .ok ⟨["new".toList], none⟩ :=
    Tree.locate_eq_ok_iff.2 ⟨by decide, by decide, .absent enters rfl⟩
  rw [Tree.makeDirectories, Tree.makeDirectory, Tree.addEntry, found]
  rfl

section

variable {name : Text} (isName' : isName name = true)
  (long : Tree.maxName < Utf8.size name + 14)

include isName'

theorem proper_new : Path.Proper ⟨0, ["new".toList, name]⟩ ∧
    Path.hasNul ⟨0, ["new".toList, name]⟩ = false := by
  refine Path.proper_of_names fun other mem => .inl ?_
  simp only [List.mem_cons, List.not_mem_nil, or_false] at mem
  rcases mem with rfl | rfl
  · decide
  · exact isName'

include long

private theorem createTemporary_made :
    made.createTemporary ⟨0, ["new".toList, name]⟩ =
      .error (.system .nameTooLong) := by
  have directory : made.temporaryDirectory ⟨0, ["new".toList, name]⟩ =
    ["new".toList] := rfl
  have enters : made.Enters .follow [] "new".toList [] :=
    ⟨rfl, rfl, by decide, by simp, by decide⟩
  have there : made.get? ["new".toList] = some Tree.newDirectory := rfl
  have located : made.locate .follow
      (Path.ofPlace (made.temporaryDirectory ⟨0, ["new".toList, name]⟩)) =
        .ok ⟨["new".toList], some Tree.newDirectory⟩ := by
    rw [directory]
    exact (Tree.locate_ofPlace_iff (by decide)).2
      ⟨by decide, .next enters there (by rintro _ ⟨⟩) (there ▸ .stay)⟩
  obtain ⟨proper, noNul⟩ := proper_new isName'
  refine Tree.createTemporary_of_long proper noNul located ?_ rfl rfl long
  rw [directory]
  decide

theorem replace_made :
    replace ⟨[], []⟩ ⟨0, ["new".toList, name]⟩ oneNote =
      (.error .storage, made) := by
  have above : Tree.makeDirectories ⟨[],
      []⟩ (Path.parent ⟨0, ["new".toList, name]⟩) = (.ok (), made) :=
    makeDirectories_new
  have shallow : oneNote.depth ≤ Json.usualRoom := by decide
  rw [replace, show check oneNote = .ok () from rfl]
  simp only [above, if_pos shallow, Tree.writeAtomic,
    createTemporary_made isName' long]

end

private theorem replace_longNotes :
    replace ⟨[], []⟩ longNotes oneNote = (.error .storage, made) :=
  replace_made Tree.isName_longName (by simp [Tree.size_longName, Tree.maxName])

/-- The directory is made before it turns out that no temporary file can be. -/
theorem replace_leaves_directory :
    replace ⟨[], []⟩ longNotes oneNote = (.error .storage, made) ∧
      made ≠ ⟨[], []⟩ :=
  ⟨replace_longNotes, by decide⟩

theorem replace_traceless_longNotes :
    (⟨[], []⟩ : Tree).Named ∧ longNotes.Proper ∧ scalars? oneNote.indented ≠ none ∧
      (∃ failure, (replace ⟨[], []⟩ longNotes oneNote).1 = .error failure) ∧
      Tree.Grows ⟨[], []⟩ longNotes.parent
        (replace ⟨[], []⟩ longNotes oneNote).2 := by
  have named : (⟨[], []⟩ : Tree).Named := by simp [Tree.Named]
  have proper : longNotes.Proper := (proper_new Tree.isName_longName).1
  have isText : scalars? oneNote.indented ≠ none := by decide
  have failed : (replace ⟨[], []⟩ longNotes oneNote).1 = .error .storage := by
    rw [replace_longNotes]
  refine ⟨named, proper, isText, ⟨_, failed⟩, ?_⟩
  rcases (replace_traceless named proper _).2 oneNote .storage isText failed with
    ⟨⟨why, refused⟩, -⟩ | ⟨-, grows, -⟩
  · simp at refused
  · exact grows

end Notes

end Showcase

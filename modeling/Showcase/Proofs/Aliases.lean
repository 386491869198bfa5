import Showcase.Proofs.Files.Ends
import Showcase.Proofs.Files.ReadBack
import Showcase.Proofs.FieldEdits
import Showcase.Proofs.Deletions

/-!
# Links to the registry

A change of a version puts a file where the registry's path ends, be there the
registry file or a link to it.  Of the paths that led to the registry file,
those that come by that place read the new text, and all others the old one
(`change_reads`).
-/

namespace Showcase

open Files Registry

namespace Files.Tree

variable {tree after : Tree} {path : Path} {place ended : Place} {entry : Entry}

/-- Whether a path leads somewhere without the entry at a place. -/
def Avoids (tree : Tree) (place : Place) (path : Path) : Prop :=
  (tree.erase place).doesExist path = .ok true

instance (tree : Tree) (place : Place) (path : Path) :
    Decidable (tree.Avoids place path) :=
  inferInstanceAs (Decidable (_ = _))

private theorem avoids_iff :
    tree.Avoids place path ↔
      ∃ other entry, (tree.erase place).locate .follow path =
        .ok ⟨other, some entry⟩ := by
  constructor
  · intro exists'
    unfold Avoids doesExist test at exists'
    split at exists'
    next entry found =>
      obtain ⟨other, located⟩ := stat_eq_ok_iff.1 found
      exact ⟨other, entry, located⟩
    all_goals simp at exists'
  · rintro ⟨other, entry, located⟩
    rw [Avoids, doesExist, test, stat_eq_ok_iff.2 ⟨other, located⟩]

private theorem ne_nil_of_isEnd (grounded : tree.Grounded)
    (isEnd : tree.IsEnd ended) : ended ≠ [] := by
  rintro rfl
  have root := grounded.directories [] List.nil_prefix
  simp [isEnd.isDirectoryAt_eq] at root

/-- When a file is put at an end, the paths that avoid it lead where they did
and all others lead to the file. -/
private theorem locate_of_puts_at_end {content : ByteArray} {mode : Nat}
    (isEnd : tree.IsEnd ended) (more : ended ≠ [])
    (puts : tree.Puts ended (.file content mode) after)
    (leads : tree.locate .follow path = .ok ⟨place, some entry⟩) :
    (tree.Avoids ended path ∧ place ≠ ended ∧
        after.locate .follow path = .ok ⟨place, some entry⟩) ∨
      (¬ tree.Avoids ended path ∧
        after.locate .follow path = .ok ⟨ended, some (.file content mode)⟩) := by
  have gone : (tree.erase ended).get? ended = none := by
    rw [get?_erase _ _ more, if_pos rfl]
  have kept (other : Place) (differs : other ≠ ended) :
      (tree.erase ended).get? other = tree.get? other := by
    rw [get?_erase _ _ more, if_neg differs]
  have puts' : (tree.erase ended).Puts ended (.file content mode) after := by
    refine ⟨fun other => ?_, puts.here⟩
    rw [puts.get?_eq]
    split
    next => rfl
    next differs => rw [kept other differs]
  have alike : Alike (tree.erase ended) after := puts'.alike (by simp [gone])
  have here : (tree.erase ended).here = tree.here := rfl
  rcases locate_elsewhere here kept (.refl tree) isEnd (by simp [gone]) leads with
    ⟨differs, located⟩ | ⟨located, -⟩
  · have there := locate_found? leads
    have located' := alike.locate_eq located
    rw [puts.get?_eq, if_neg differs, ← there] at located'
    exact .inl ⟨avoids_iff.2 ⟨place, entry, located⟩, differs, located'⟩
  · have located' := alike.locate_eq located
    rw [puts.get?_eq, if_pos rfl] at located'
    refine .inr ⟨fun avoids => ?_, located'⟩
    obtain ⟨other, entry', located''⟩ := avoids_iff.1 avoids
    simp [located, gone] at located''

end Files.Tree

namespace Catalogue

variable {catalogue : Catalogue} {tree after : Tree} {place ended : Place}
  {id : Json} {change : Change} {content : ByteArray} {mode : Nat}
  {found? : Option Files.Entry}

private theorem exists_written_of_turns
    (turns : change.Turns catalogue id tree after) (rewritten : after ≠ tree) :
    ∃ old ids points new, catalogue.readRegistry tree = .ok old ∧
      checkId id = .ok ids ∧
      change.value = .ok points ∧
      Registry.setField old catalogue.listName ids change.field points =
        .ok (some (toPoints new)) ∧
      tree.writeText catalogue.registry new = (.ok (), after) := by
  obtain ⟨old, ids, points, read, accepted, requested⟩ := exists_of_turns turns
  obtain ⟨answer, run⟩ := turns
  rw [change.run_eq] at run
  simp only [accepted, requested, ok_bind, map_ok, setField_eq read] at run
  cases edit : Registry.setField old catalogue.listName ids change.field points with
  | error failure => simp [edit] at run
  | ok new? =>
      cases new? with
      | none =>
          simp only [edit, Prod.mk.injEq] at run
          exact absurd run.2.symm rewritten
      | some _ =>
          obtain ⟨new, rfl⟩ := exists_of_setField edit
          refine ⟨old, ids, points, new, read, accepted, requested, edit, ?_⟩
          simp only [edit] at run
          rw [← Tree.writeText] at run
          cases wrote : tree.writeText catalogue.registry new with
          | mk outcome written =>
              cases outcome with
              | error failure => simp [wrote] at run
              | ok done =>
                  simp only [wrote, Prod.mk.injEq] at run
                  rw [run.2]

/-- After a call that rewrites the registry there is a file where its path ends.
The paths that led to the registry file read the new text, but for those that do
not need the entry which was there: these read the old text. -/
theorem change_reads (grounded : tree.Grounded)
    (proper : catalogue.registry.Proper)
    (kept : tree.locate .keep catalogue.registry = .ok ⟨ended, found?⟩)
    (leads : tree.locate .follow catalogue.registry =
      .ok ⟨place, some (.file content mode)⟩)
    (turns : change.Turns catalogue id tree after) (rewritten : after ≠ tree) :
    ∃ old ids points new, Utf8.decode? content = some old ∧ checkId id = .ok ids ∧
      change.value = .ok points ∧
      Registry.setField old catalogue.listName ids change.field points =
        .ok (some (toPoints new)) ∧
      tree.Puts ended (.file (Utf8.encode new) mode) after ∧
      ∀ path, tree.locate .follow path = .ok ⟨place, some (.file content mode)⟩ →
        (place = ended → ¬ tree.Avoids ended path) ∧
        after.readText path = .ok (if tree.Avoids ended path then
          old else new) := by
  obtain ⟨old, ids, points, new, read, accepted, requested, edit, wrote⟩ :=
    exists_written_of_turns turns rewritten
  obtain ⟨_, _, _, leads', readable, decoded⟩ :=
    Tree.exists_of_readText (readText_of_readRegistry read)
  obtain ⟨rfl, same⟩ := Tree.Spot.mk.inj (Except.ok.inj (leads.symm.trans leads'))
  obtain ⟨rfl, rfl⟩ := Files.Entry.file.inj (Option.some.inj same)
  have isEnd : tree.IsEnd ended := Tree.isEnd_of_locate kept leads
  have more := Tree.ne_nil_of_isEnd grounded isEnd
  obtain ⟨target, kept', puts⟩ :=
    Tree.exists_puts_of_wrote grounded.named proper
    (Tree.stat_eq_ok_iff.2 ⟨place, leads⟩) wrote
  obtain rfl := Except.ok.inj (kept.symm.trans kept')
  refine ⟨old, ids, points, new, decoded, accepted, requested, edit, puts,
    fun path led => ?_⟩
  rcases Tree.locate_of_puts_at_end isEnd more puts led with
    ⟨avoids, differs, located⟩ | ⟨avoids, located⟩
  · rw [if_pos avoids]
    exact ⟨fun same => absurd same differs,
      Tree.readText_eq_of_locate located readable decoded⟩
  · rw [if_neg avoids]
    exact ⟨fun _ => avoids,
      Tree.readText_eq_of_locate located readable (Utf8.decode?_encode new)⟩

/-! ## A registry behind two links -/

def oldTitle : Text := "const versions=[\x7bid:'a',title:'Old'\x7d]".toList

def newTitle : Text := "const versions=[\x7bid:'a',title:'New'\x7d]".toList

/-- The registry's path is a link to a file, and there is another link to that
link. -/
def chainTree : Tree :=
  ⟨[(["index.ts".toList], .link "real.ts".toList),
    (["also.ts".toList], .link "index.ts".toList),
    (["real.ts".toList], .file (Utf8.encode oldTitle) 0o644)], []⟩

/-- The tree with a file where the link was. -/
def splitTree : Tree :=
  ⟨[(["index.ts".toList], .file (Utf8.encode newTitle) 0o644),
    (["also.ts".toList], .link "index.ts".toList),
    (["real.ts".toList], .file (Utf8.encode oldTitle) 0o644)], []⟩

private theorem grounded_chainTree : chainTree.Grounded := by
  refine ⟨by simp [Tree.Named, chainTree], fun before start => ?_⟩
  obtain rfl := List.prefix_nil.1 start
  rfl

def filePath : Path := ⟨0, ["real.ts".toList]⟩

def aliasPath : Path := ⟨0, ["also.ts".toList]⟩

private theorem leads_chainTree {path : Path}
    (mem : path ∈ [alone.registry, filePath, aliasPath]) :
    chainTree.locate .follow path =
      .ok ⟨["real.ts".toList], some (.file (Utf8.encode oldTitle) 0o644)⟩ := by
  simp only [List.mem_cons, List.not_mem_nil, or_false] at mem
  rcases mem with rfl | rfl | rfl
  all_goals cbv

private theorem turns_chainTree :
    (Change.title (.ofString "New")).Turns alone (.ofString "a") chainTree
      splitTree := by
  have read : alone.readRegistry chainTree = .ok oldTitle := by
    rw [readRegistry, show chainTree.doesExist alone.registry = .ok true by cbv]
    exact Tree.readText_eq_of_locate (leads_chainTree (by simp))
      (Files.Entry.permits_read_file _) (Utf8.decode?_encode _)
  have requested : (Change.title (.ofString "New")).value =
    .ok (toPoints "New".toList) := by decide
  have edit : Registry.setField oldTitle alone.listName (toPoints "a".toList)
      (Change.title (.ofString "New")).field (toPoints "New".toList) =
        .ok (some (toPoints newTitle)) := by
    decide +kernel
  have wrote : chainTree.writeText alone.registry newTitle =
    (.ok (), splitTree) := by cbv
  exact ⟨_, by rw [run_eq_of_setField read (by decide) requested edit, wrote]; rfl⟩

theorem change_reads_chainTree : ∃ old new,
    Utf8.decode? (Utf8.encode oldTitle) = some old ∧
      splitTree.readText alone.registry = .ok new ∧
      splitTree.readText aliasPath = .ok new ∧
      splitTree.readText filePath = .ok old := by
  obtain ⟨old, ids, points, new, decoded, -, -, -, -, reads⟩ :=
    change_reads grounded_chainTree proper_alone
      (by cbv : chainTree.locate .keep alone.registry =
        .ok ⟨["index.ts".toList], some (.link "real.ts".toList)⟩)
      (leads_chainTree (by simp)) turns_chainTree (by decide)
  have needs {path : Path}
      (lost : (chainTree.erase ["index.ts".toList]).doesExist path = .ok false) :
      ¬ chainTree.Avoids ["index.ts".toList] path := by
    rw [Tree.Avoids, lost]
    decide
  have registry := (reads _ (leads_chainTree (by simp : alone.registry ∈ _))).2
  have also := (reads _ (leads_chainTree (by simp : aliasPath ∈ _))).2
  have real := (reads _ (leads_chainTree (by simp : filePath ∈ _))).2
  rw [if_neg (needs (by cbv))] at registry also
  rw [if_pos (by cbv)] at real
  exact ⟨old, new, decoded, registry, also, real⟩

/-- After the call the link is gone, and the file that it led to has the old
title. -/
theorem chainTree_split :
    (Change.title (.ofString "New")).Turns alone (.ofString "a")
      chainTree splitTree ∧
      splitTree ≠ chainTree ∧
      chainTree.get? ["index.ts".toList] = some (.link "real.ts".toList) ∧
      splitTree.get? ["index.ts".toList] =
        some (.file (Utf8.encode newTitle) 0o644) ∧
      (chainTree.stat filePath = .ok (.file (Utf8.encode oldTitle) 0o644) ∧
        chainTree.stat alone.registry = .ok (.file (Utf8.encode oldTitle) 0o644)) ∧
      splitTree.readText filePath = .ok oldTitle := by
  refine ⟨turns_chainTree, by decide, rfl, rfl, ⟨?_, ?_⟩, ?_⟩
  · exact Tree.stat_eq_ok_iff.2 ⟨_, leads_chainTree (by simp)⟩
  · exact Tree.stat_eq_ok_iff.2 ⟨_, leads_chainTree (by simp)⟩
  · have located : splitTree.locate .follow filePath =
        .ok ⟨["real.ts".toList], some (.file (Utf8.encode oldTitle) 0o644)⟩ := by
          cbv
    exact Tree.readText_eq_of_locate located (Files.Entry.permits_read_file _)
      (Utf8.decode?_encode _)

end Catalogue

end Showcase

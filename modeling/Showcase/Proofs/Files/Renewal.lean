import Showcase.Proofs.Files.Missing

/-!
# Files that are taken away and made again

Where a path leads to a file or to nothing, the file can be taken away and
another one made in its place, and the path then leads to the same place
(`Clearable.erase`, `Clearable.writeFile_eq`).
-/

namespace Showcase.Files

/-! ## The directory of a path -/

private theorem joinSlash_concat {parts : List Text} (more : parts ≠ [])
    (part : Text) :
    joinSlash (parts ++ [part]) = joinSlash parts ++ '/' :: part := by
  induction parts with
  | nil => exact absurd rfl more
  | cons first parts ih =>
      cases parts with
      | nil => rfl
      | cons next parts =>
          have step (rest : List Text) :
              joinSlash (first :: next :: rest) = first ++ '/' ::
                joinSlash (next :: rest) := rfl
          rw [List.cons_append, List.cons_append, step, ← List.cons_append,
            ih (by simp), step]
          simp

namespace Path

private theorem Proper.exists_name {path : Path} (proper : path.Proper)
    (ends : path.endsInName = true) :
    ∃ front name, path.parts = front ++ [name] ∧ name ≠ [] ∧ name ≠ ['.'] ∧
      name ≠ ['.', '.'] := by
  rcases List.eq_nil_or_concat path.parts with none | ⟨front, name, shape⟩
  · simp [endsInName, Path.name, none] at ends
  · rw [List.concat_eq_append] at shape
    have isPart := (proper name (by simp [shape])).1
    simp only [endsInName, Path.name, shape, List.getLast?_concat,
      Option.getD_some, Bool.and_eq_true, bne_iff_ne] at ends
    simp only [Path.isPart, Bool.and_eq_true, bne_iff_ne] at isPart
    exact ⟨front, name, shape, by simpa using isPart.1, isPart.2, ends.2⟩

private theorem hasNul_parent {path : Path} (noNul : path.hasNul = false) :
    path.parent.hasNul = false := by
  rw [hasNul, List.any_eq_false] at noNul ⊢
  exact fun name mem => noNul name (List.dropLast_subset _ mem)

private theorem size_parent_le {slashes : Nat} {front : List Text} {name : Text}
    (nonempty : name ≠ []) :
    Utf8.size (toText ⟨slashes, front⟩) ≤
      Utf8.size (toText ⟨slashes, front ++ [name]⟩) := by
  have some : (⟨slashes, front ++ [name]⟩ : Path).parts ≠ [] := by simp
  have longer : Utf8.size (joinSlash front) ≤
      Utf8.size (joinSlash (front ++ [name])) := by
    by_cases none : front = []
    · simp [none, joinSlash, Utf8.size]
    · rw [joinSlash_concat none, Utf8.size_append]
      omega
  rw [toText_eq some, toText]
  split
  next noSlash =>
    obtain ⟨rfl, rfl⟩ : slashes = 0 ∧ front = [] := noSlash
    exact Nat.le_trans (List.length_pos_iff.2 nonempty) (Utf8.length_le_size name)
  next =>
    rw [Utf8.size_append, Utf8.size_append]
    exact Nat.add_le_add_left longer _

end Path

namespace Tree

variable {tree : Tree} {ending : Ending} {links : Nat} {place : Place}
  {names : List Text} {spot : Spot} {path : Path}

/-- A walk that keeps to links ends at its last name, in the directory that the
other names lead to. -/
private theorem Leads.exists_directory {name : Text}
    (proper : name ≠ [] ∧ name ≠ ['.'] ∧ name ≠ ['.', '.'])
    (h : Leads tree .keep links place (names ++ [name]) spot) :
    ∃ above, Leads tree .follow links place names above ∧
      tree.Enters .keep above.place name [] ∧
      spot.place = above.place ++ [name] := by
  generalize all : names ++ [name] = names' at h
  induction h generalizing names with
  | stay => simp at all
  | empty directory _ ih =>
      cases names with
      | nil => exact absurd (List.cons.inj all).1 proper.1
      | cons first names =>
          obtain ⟨rfl, rest⟩ := List.cons.inj all
          obtain ⟨above, led, enters, last⟩ := ih rest
          exact ⟨above, .empty directory led, enters, last⟩
  | dot directory search _ ih =>
      cases names with
      | nil => exact absurd (List.cons.inj all).1 proper.2.1
      | cons first names =>
          obtain ⟨rfl, rest⟩ := List.cons.inj all
          obtain ⟨above, led, enters, last⟩ := ih rest
          exact ⟨above, .dot directory search led, enters, last⟩
  | up directory search _ ih =>
      cases names with
      | nil => exact absurd (List.cons.inj all).1 proper.2.2
      | cons first names =>
          obtain ⟨rfl, rest⟩ := List.cons.inj all
          obtain ⟨above, led, enters, last⟩ := ih rest
          exact ⟨above, .up directory search led, enters, last⟩
  | absent enters | kept enters =>
      obtain ⟨rfl, same⟩ :=
        List.append_eq_singleton_iff.1 all |>.resolve_right (by simp)
      obtain rfl := List.singleton_inj.1 same
      exact ⟨_, .stay, enters, rfl⟩
  | link enters found notKept more _ ih =>
      cases names with
      | nil => -- a link under the last name is kept to
          obtain ⟨rfl, rfl⟩ := List.cons.inj all
          exact absurd ⟨rfl, rfl⟩ notKept
      | cons first names =>
          obtain ⟨rfl, rfl⟩ := List.cons.inj all
          obtain ⟨above, led, enters', last⟩ := ih (List.append_assoc _ _ _)
          exact ⟨above, .link (enters.change (by simp)) found (by simp) more led,
            enters', last⟩
  | next enters found notLink later ih =>
      cases names with
      | nil =>
          obtain ⟨rfl, rfl⟩ := List.cons.inj all
          cases later
          exact ⟨_, .stay, enters, rfl⟩
      | cons first names =>
          obtain ⟨rfl, rest⟩ := List.cons.inj all
          obtain ⟨above, led, enters', last⟩ := ih rest
          exact ⟨above, .next (enters.change (by simp)) found notLink led,
            enters', last⟩

/-- A path that ends in a name leads into a directory, which its parent leads to. -/
private theorem exists_directory_of_locate (proper : path.Proper)
    (ends : path.endsInName = true) (kept : tree.locate .keep path = .ok spot) :
    ∃ above name, tree.locate .follow path.parent = .ok above ∧
      tree.Enters .keep above.place name [] ∧
      spot.place = above.place ++ [name] ∧
      ((∀ target, spot.found? ≠ some (.link target)) →
        tree.locate .create path = .ok spot) := by
  obtain ⟨front, name, shape, isName⟩ := proper.exists_name ends
  obtain ⟨slashes, parts⟩ := path
  obtain rfl : parts = front ++ [name] := shape
  have some : (⟨slashes, front ++ [name]⟩ : Path).parts ≠ [] := by simp
  obtain ⟨noNul, short, led⟩ := locate_eq_ok_iff.1 kept
  rw [proper.components_toText some, proper.origin_toText some] at led
  obtain ⟨above, ahead, enters, last⟩ := led.exists_directory isName
  have parent : (⟨slashes, front ++ [name]⟩ : Path).parent = ⟨slashes, front⟩ := by
    simp [Path.parent]
  have ahead' : Leads tree .follow maxLinks
      (origin tree.here (Path.toText ⟨slashes, front⟩))
      (components (Path.toText ⟨slashes, front⟩)) above := by
    by_cases none : front = []
    · subst none
      cases ahead
      cases slashes with
      | zero => exact .dot enters.directory enters.search .stay
      | succ slashes =>
          rw [Path.toText, if_neg (by simp), components_slashes, origin_slashes]
          exact .stay
    · have proper' : Path.Proper ⟨slashes, front⟩ := parent ▸ proper.parent
      rw [proper'.components_toText none, proper'.origin_toText none]
      exact ahead
  refine ⟨above, name, ?_, enters, last, fun notLink => ?_⟩
  · rw [parent]
    exact locate_eq_ok_iff.2 ⟨parent ▸ Path.hasNul_parent noNul,
      Nat.le_trans (Path.size_parent_le isName.1) short, ahead'⟩
  · refine locate_eq_ok_iff.2 ⟨noNul, short, ?_⟩
    rw [proper.components_toText some, proper.origin_toText some]
    have found := led.found?_eq
    rw [last] at found
    have looked : tree.Enters .create above.place name [] :=
      ⟨enters.directory, enters.search, enters.proper, by simp, enters.short⟩
    have made := ahead.snoc looked (by rwa [← found])
    rwa [← found, ← last] at made

/-! ## A file that can be taken away -/

/-- A file or nothing is where a path leads, and the directory that it is in can
be changed. -/
structure Clearable (tree : Tree) (path : Path) (place : Place) : Prop where
  proper : path.Proper
  ends : path.endsInName = true
  located : tree.locate .keep path = .ok ⟨place, tree.get? place⟩
  plain : ∀ entry, tree.get? place = some entry → entry.isFile = true
  canChange : tree.canChange place = true

namespace Clearable

variable {tree' : Tree} {entry : Entry} {content : ByteArray} {mode : Nat}

theorem notLink (h : tree.Clearable path place) (target : Text) :
    tree.get? place ≠ some (.link target) :=
  fun there => by simpa [Entry.isFile] using h.plain _ there

theorem followed (h : tree.Clearable path place) :
    tree.locate .follow path = .ok ⟨place, tree.get? place⟩ :=
  locate_follow h.located h.notLink

theorem ne_nil (h : tree.Clearable path place) : place ≠ [] := by
  obtain ⟨above, name, -, -, last, -⟩ :=
    exists_directory_of_locate h.proper h.ends h.located
  simp only at last
  simp [last]

/-- What becomes of the file has no effect on the way to it. -/
private theorem of_agree (h : tree.Clearable path place)
    (here : tree'.here = tree.here)
    (agree : ∀ other, other ≠ place → tree'.get? other = tree.get? other)
    (plain : ∀ entry, tree'.get? place = some entry → entry.isFile = true) :
    tree'.Clearable path place := by
  have alike : Alike tree tree' := by
    refine .of_files here fun other => ?_
    by_cases same : other = place
    · subst same
      exact .inr ⟨h.plain, plain⟩
    · exact .inl (agree other same)
  have apart : place.dropLast ≠ place := by
    intro same
    have length := congrArg List.length same
    have more := List.length_pos_iff.2 h.ne_nil
    rw [List.length_dropLast] at length
    omega
  refine ⟨h.proper, h.ends, alike.locate_eq h.located, plain, ?_⟩
  rw [Tree.canChange, permits_of_ne agree apart]
  exact h.canChange

theorem get?_erased (h : tree.Clearable path place) :
    (tree.erase place).get? place = none := by
  rw [get?_erase _ _ h.ne_nil, if_pos rfl]

theorem erase (h : tree.Clearable path place) :
    (tree.erase place).Clearable path place := by
  refine h.of_agree rfl (fun other differs => ?_) (by simp [h.get?_erased])
  rw [get?_erase _ _ h.ne_nil, if_neg differs]

theorem set (h : tree.Clearable path place) (content : ByteArray) (mode : Nat) :
    (tree.set place (.file content mode)).Clearable path place := by
  refine h.of_agree rfl (fun other differs => ?_) ?_
  · rw [get?_set, if_neg differs]
  · rw [get?_set, if_pos rfl]
    rintro entry ⟨⟩
    rfl

/-! ### What a path to such a file gives -/

theorem doesExist_eq (h : tree.Clearable path place) :
    tree.doesExist path = .ok (tree.get? place).isSome := by
  simp only [doesExist, test, stat, h.followed, ok_bind]
  cases tree.get? place <;> rfl

theorem readFile_eq (h : tree.Clearable path place)
    (there : tree.get? place = some (.file content mode))
    (readable : (Entry.file content mode).permits .read = true) :
    tree.readFile path = .ok content := by
  simp only [readFile, stat, h.followed, there, ok_bind, pure,
    Except.pure, readable, Bool.true_eq_false, if_false]

theorem unlink_eq (h : tree.Clearable path place)
    (there : tree.get? place = some entry) :
    tree.unlink path = (.ok (), tree.erase place) := by
  have file := h.plain entry there
  have notDirectory : entry.isDirectory = false := by
    cases entry <;> simp_all [Entry.isFile, Entry.isDirectory]
  simp only [unlink, h.located, there, h.ends, h.canChange, notDirectory,
    Bool.true_eq_false, Bool.false_eq_true, if_false]

theorem makeDirectories_eq (h : tree.Clearable path place) :
    tree.makeDirectories path.parent = (.ok (), tree) := by
  obtain ⟨above, name, led, enters, -, -⟩ :=
    exists_directory_of_locate h.proper h.ends h.located
  refine makeDirectories_of_isDirectory ?_
  have directory := enters.directory
  simp only [Tree.isDirectory, test, stat, led, ok_bind, locate_found? led]
  unfold isDirectoryAt at directory
  split at directory
  next => simp only [pure, Except.pure, directory]
  next => simp at directory

theorem writeFile_eq (h : tree.Clearable path place)
    (unused : tree.get? place = none) (content : ByteArray) :
    tree.writeFile path content =
      (.ok (), tree.set place (.file content 0o644)) := by
  obtain ⟨-, -, -, -, -, create⟩ :=
    exists_directory_of_locate h.proper h.ends h.located
  simp only [writeFile, create h.notLink, unused, h.canChange, if_true]

end Clearable

end Tree

end Showcase.Files

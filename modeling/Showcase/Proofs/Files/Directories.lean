import Showcase.Proofs.Files.Ends

/-!
# Created directories

A path that leads to an entry still does when the tree grows (`Within.leads`).
Making a directory with those above it adds directories on the way to it and
nothing else (`makeDirectories_grows`).
-/

namespace Showcase.Files.Tree

variable {tree tree' : Tree} {ending : Ending} {links : Nat} {place : Place}
  {names : List Text} {spot : Spot} {path : Path}

/-! ## Trees that grow -/

namespace Within

theorem trans {tree'' : Tree} (h : tree.Within tree') (h' : tree'.Within tree'') :
    tree.Within tree'' := fun place entry found =>
      h' place entry (h place entry found)

theorem set (unused : tree.get? place = none) (entry : Entry) :
    tree.Within (tree.set place entry) := by
  intro other entry' found
  have differs : other ≠ place := by
    rintro rfl
    simp [unused] at found
  rw [get?_set, if_neg differs, found]

theorem permits (h : tree.Within tree') {right : Right}
    (there : tree.permits place right = true) :
    tree'.permits place right = true := by
  unfold Tree.permits at there ⊢
  split at there
  next entry found => simpa [h _ _ found] using there
  next => simp at there

theorem enters {name : Text} (h : tree.Within tree')
    (there : tree.Enters ending place name names) :
    tree'.Enters ending place name names :=
  ⟨h.isDirectoryAt there.directory, h.permits there.search, there.proper,
    there.noSlash, there.short⟩

theorem leads (h : tree.Within tree')
    (found : Leads tree ending links place names spot)
    (there : spot.found? ≠ none) : Leads tree' ending links place names spot := by
  induction found with
  | @stay links place =>
      obtain ⟨entry, here⟩ := Option.ne_none_iff_exists'.1 there
      have same : tree'.get? place = tree.get? place := (h _ _ here).trans here.symm
      rw [← same]
      exact .stay
  | empty directory _ ih => exact .empty (h.isDirectoryAt directory) (ih there)
  | dot directory search _ ih =>
      exact .dot (h.isDirectoryAt directory) (h.permits search) (ih there)
  | up directory search _ ih =>
      exact .up (h.isDirectoryAt directory) (h.permits search) (ih there)
  | absent => exact absurd rfl there
  | kept enters keep here => exact .kept (h.enters enters) keep (h _ _ here)
  | link enters here more nonempty _ ih =>
      exact .link (h.enters enters) (h _ _ here) more nonempty (ih there)
  | next enters here notLink _ ih =>
      exact .next (h.enters enters) (h _ _ here) notLink (ih there)

theorem locate_eq (h : tree.Within tree') (here : tree'.here = tree.here)
    (found : tree.locate ending path = .ok spot) (there : spot.found? ≠ none) :
    tree'.locate ending path = .ok spot := by
  obtain ⟨noNul, short, leads⟩ := locate_eq_ok_iff.1 found
  exact locate_eq_ok_iff.2 ⟨noNul, short, here ▸ h.leads leads there⟩

end Within

/-! ## One directory -/

/-- A path that leads nowhere yet leads to the directory that is put there. -/
theorem Leads.created {unused : Place}
    (h : Leads tree .keep links place names ⟨unused, none⟩) :
    Leads (tree.set unused newDirectory) .follow links place names ⟨unused,
      some newDirectory⟩ := by
  have absent := h.found?_eq.symm
  have grown : tree.Within (tree.set unused newDirectory) := .set absent _
  have put : (tree.set unused newDirectory).get? unused = some newDirectory := by
    rw [get?_set, if_pos rfl]
  generalize last : Spot.mk unused none = spot at h
  have enters {place : Place} {name : Text} {names : List Text}
      (h : tree.Enters .keep place name names) :
      (tree.set unused newDirectory).Enters .follow place name names :=
    (grown.enters h).change (by simp)
  induction h with
  | stay =>
      obtain ⟨rfl, -⟩ := Spot.mk.inj last
      rw [← put]
      exact .stay
  | empty directory _ ih => exact .empty (grown.isDirectoryAt directory) (ih last)
  | dot directory search _ ih =>
      exact .dot (grown.isDirectoryAt directory) (grown.permits search) (ih last)
  | up directory search _ ih =>
      exact .up (grown.isDirectoryAt directory) (grown.permits search) (ih last)
  | @absent links place name looked _ =>
      obtain ⟨rfl, -⟩ := Spot.mk.inj last
      have stays : Leads (tree.set (place ++ [name]) newDirectory) .follow links
          (place ++ [name]) []
          ⟨place ++ [name], some newDirectory⟩ := put ▸ .stay
      exact .next (enters looked) put (by rintro _ ⟨⟩) stays
  | kept => simp at last
  | link looked there _ nonempty _ ih =>
      exact .link (enters looked) (grown _ _ there) (by simp) nonempty (ih last)
  | next looked there notLink _ ih =>
      exact .next (enters looked) (grown _ _ there) notLink (ih last)

theorem makeDirectory_cases (tree : Tree) (path : Path) :
    (∃ failure, tree.makeDirectory path = (.error failure, tree)) ∨
      ∃ place, tree.locate .keep path = .ok ⟨place, none⟩ ∧
        tree.makeDirectory path = (.ok (), tree.set place newDirectory) := by
  unfold makeDirectory addEntry
  split
  next failure _ => exact .inl ⟨failure, rfl⟩
  next => exact .inl ⟨_, rfl⟩
  next place found =>
    split
    · exact .inr ⟨place, found, rfl⟩
    · exact .inl ⟨_, rfl⟩

/-! ## A directory and those above it -/

/-- The tree `after` has all that `tree` has, and else only directories that a
path leads through. -/
structure Grows (tree : Tree) (path : Path) (after : Tree) : Prop where
  here : after.here = tree.here
  within : tree.Within after
  created : ∀ place, after.get? place = tree.get? place ∨
    tree.get? place = none ∧ ∃ depth ≤ path.parts.length,
      after.locate .follow ⟨path.slashes, path.parts.take depth⟩ =
        .ok ⟨place, some newDirectory⟩

namespace Grows

theorem refl (tree : Tree) (path : Path) : tree.Grows path tree :=
  ⟨rfl, .refl tree, fun _ => .inl rfl⟩

private theorem of_makeDirectory {after : Tree}
    (h : tree.makeDirectory path = (.ok (), after)) :
    tree.Grows path after := by
  rcases tree.makeDirectory_cases path with ⟨failure, failed⟩ | ⟨place, found, made⟩
  · simp [failed] at h
  · obtain rfl : tree.set place newDirectory = after :=
      congrArg Prod.snd (made.symm.trans h)
    obtain ⟨noNul, short, leads⟩ := locate_eq_ok_iff.1 found
    have absent := leads.found?_eq.symm
    have led : (tree.set place newDirectory).locate .follow path =
        .ok ⟨place, some newDirectory⟩ :=
      locate_eq_ok_iff.2 ⟨noNul, short, leads.created⟩
    refine ⟨rfl, .set absent _, fun other => ?_⟩
    rw [get?_set]
    split
    next same =>
      subst same
      exact .inr ⟨absent, path.parts.length, Nat.le_refl _,
        by rwa [List.take_length]⟩
    next => exact .inl rfl

/-- Directories above a path, and then more on the way to it. -/
theorem trans {above after : Tree} (h : tree.Grows path.parent above)
    (h' : above.Grows path after) :
    tree.Grows path after := by
  refine ⟨h'.here.trans h.here, h.within.trans h'.within, fun place => ?_⟩
  rcases h'.created place with same | ⟨absent, created⟩
  · rw [same]
    refine (h.created place).imp id fun ⟨absent, depth, bound, led⟩ =>
      ⟨absent, depth, ?_, ?_⟩
    · exact Nat.le_trans bound (List.dropLast_sublist _).length_le
    · have kept := h'.within.locate_eq h'.here led (by simp)
      rw [← kept]
      rw [Path.parent, List.length_dropLast] at bound
      rw [Path.parent, List.dropLast_eq_take, List.take_take, Nat.min_eq_left bound]
  · refine .inr ⟨?_, created⟩
    rcases h.created place with same | ⟨absent', -⟩
    · rw [← same, absent]
    · exact absent'

end Grows

theorem acceptDirectory_snd (tree : Tree) (path : Path) (failure : Failure) :
    (tree.acceptDirectory path failure).2 = tree := by
  unfold acceptDirectory
  split
  · rfl
  · split <;> rfl
  · rfl

theorem makeDirectories_grows (tree : Tree) (path : Path) :
    tree.Grows path (tree.makeDirectories path).2 := by
  fun_induction makeDirectories tree path with
  | case1 path after made => exact .of_makeDirectory made
  | case2 => exact .refl _ _
  | case3 path _ _ _ failure above failed ih =>
      rw [failed] at ih
      exact .trans ih (.refl _ _)
  | case4 path _ _ _ above made after made' ih =>
      rw [made] at ih
      exact .trans ih (.of_makeDirectory made')
  | case5 path _ _ _ above made failure _ failed ih =>
      rw [made] at ih
      rw [acceptDirectory_snd]
      exact .trans ih (.refl _ _)
  | case6 path failure =>
      rw [acceptDirectory_snd]
      exact .refl _ _

/-! ## A directory that is there -/

/-- What is found behind links is found, or is a link, when the last one is not
followed. -/
theorem Leads.keep (h : Leads tree .follow links place names spot)
    (there : spot.found? ≠ none) :
    ∃ spot', Leads tree .keep links place names spot' ∧ spot'.found? ≠ none := by
  induction h with
  | stay => exact ⟨_, .stay, there⟩
  | empty directory _ ih =>
      obtain ⟨spot', led, some⟩ := ih there
      exact ⟨spot', .empty directory led, some⟩
  | dot directory search _ ih =>
      obtain ⟨spot', led, some⟩ := ih there
      exact ⟨spot', .dot directory search led, some⟩
  | up directory search _ ih =>
      obtain ⟨spot', led, some⟩ := ih there
      exact ⟨spot', .up directory search led, some⟩
  | absent => exact absurd rfl there
  | kept _ keep _ => simp at keep
  | @link _ _ _ names _ _ enters target _ more _ ih =>
      by_cases last : names = []
      · subst last
        exact ⟨_, .kept (enters.change (by simp)) rfl target, by simp⟩
      · obtain ⟨spot', led, some⟩ := ih there
        exact ⟨spot', .link (enters.change (by simp)) target (by simp [last])
          more led, some⟩
  | next enters here notLink _ ih =>
      obtain ⟨spot', led, some⟩ := ih there
      exact ⟨spot', .next (enters.change (by simp)) here notLink led, some⟩

private theorem locate_keep (found : tree.locate .follow path = .ok spot)
    (there : spot.found? ≠ none) :
    ∃ spot', tree.locate .keep path = .ok spot' ∧ spot'.found? ≠ none := by
  obtain ⟨noNul, short, led⟩ := locate_eq_ok_iff.1 found
  obtain ⟨spot', led', there'⟩ := led.keep there
  exact ⟨spot', locate_eq_ok_iff.2 ⟨noNul, short, led'⟩, there'⟩

theorem makeDirectories_of_isDirectory (h : tree.isDirectory path = .ok true) :
    tree.makeDirectories path = (.ok (), tree) := by
  obtain ⟨spot, found, there⟩ : ∃ spot, tree.locate .follow path = .ok spot ∧
      spot.found? ≠ none := by
    unfold isDirectory test at h
    split at h
    next entry found =>
      obtain ⟨place, located⟩ := stat_eq_ok_iff.1 found
      exact ⟨_, located, by simp⟩
    all_goals simp at h
  obtain ⟨spot', kept, there'⟩ := locate_keep found there
  have exists' : tree.makeDirectory path = (.error (.system .exists), tree) := by
    obtain ⟨place, entry, rfl⟩ : ∃ place entry, spot' = ⟨place, some entry⟩ := by
      obtain ⟨entry, here⟩ := Option.ne_none_iff_exists'.1 there'
      exact ⟨spot'.place, entry, by rw [← here]⟩
    rw [makeDirectory, addEntry, kept]
  rw [makeDirectories, exists']
  simp only [acceptDirectory, h]

end Showcase.Files.Tree

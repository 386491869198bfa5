import Showcase.Proofs.Files.Resolution

/-!
# What resolution depends on

Resolution looks for links and for nothing else, and it has fuel for all links
of the tree, so that trees with the same links resolve every path to the same
place (`SameLinks.progressOf_eq`).  What has no link on it resolves to itself.
-/

namespace Showcase.Files.Tree

variable {tree tree' : Tree} {fuel fuel' : Nat} {resolved : Resolved}
  {place : Place} {names : List Text}

/-! ## Links not yet met -/

/-- The places of a tree that are not among the links met so far. -/
def pending (tree : Tree) (resolved : Resolved) : Nat :=
  (tree.entries.map Prod.fst).countP fun place => (resolved.lookup place).isNone

private theorem pending_mono {resolved' : Resolved}
    (more : ∀ link, resolved'.lookup link = none → resolved.lookup link = none) :
    tree.pending resolved' ≤ tree.pending resolved := by
  refine List.countP_mono_left fun place _ unmet => ?_
  simp only [Option.isNone_iff_eq_none] at unmet ⊢
  exact more place unmet

private theorem lookup_cons_eq_none {link other : Place} {place? : Option Place}
    (h : List.lookup other ((link, place?) :: resolved) = none) :
    other ≠ link ∧ resolved.lookup other = none := by
  rw [List.lookup_cons] at h
  split at h
  · simp at h
  · rename_i differs
    exact ⟨by simpa using differs, h⟩

/-- A link that is met leaves fewer pending. -/
private theorem pending_cons {link : Place} (mem : link ∈ tree.entries.map Prod.fst)
    (unmet : resolved.lookup link = none) (place? : Option Place) :
    tree.pending ((link, place?) :: resolved) < tree.pending resolved := by
  unfold pending
  obtain ⟨before, after, split⟩ := List.append_of_mem mem
  have fewer (part : List Place) :
      part.countP (fun place =>
        (List.lookup place ((link, place?) :: resolved)).isNone) ≤
          part.countP fun place => (resolved.lookup place).isNone := by
    refine List.countP_mono_left fun place _ unmet => ?_
    simp only [Option.isNone_iff_eq_none] at unmet ⊢
    exact (lookup_cons_eq_none unmet).2
  have met : (List.lookup link ((link, place?) :: resolved)).isNone = false := by
    simp
  have first := fewer before
  have last := fewer after
  rw [split, List.countP_append, List.countP_append, List.countP_cons,
    List.countP_cons, met, unmet]
  simp only [Option.isNone_none, if_true, Bool.false_eq_true, if_false]
  omega

private theorem lookup_of_resolveNames {found : Place} {resolved' : Resolved}
    (h : tree.resolveNames fuel resolved place names = .ok (.place found resolved'))
    {link : Place} (unmet : resolved'.lookup link = none) :
    resolved.lookup link = none := by
  fun_induction Tree.resolveNames tree fuel resolved place names
    generalizing found resolved' with
  | case1 =>
      cases h
      exact unmet
  | case2 _ _ _ _ _ _ ih => exact ih h unmet
  | case3 _ _ _ _ _ ih => exact ih h unmet
  | case4 => simp at h
  | case5 =>
      rename_i ih
      exact ih h unmet
  | case6 | case7 | case8 | case9 => simp at h
  | case10 =>
      rename_i inner ih ih'
      exact (lookup_cons_eq_none (ih inner (lookup_cons_eq_none (ih' h unmet)).2)).2
  | case11 =>
      rename_i ih
      exact ih h unmet

theorem get?_of_visible? {entry : Entry} (h : tree.visible? place = some entry) :
    tree.get? place = some entry := by
  unfold visible? at h
  split at h
  · exact h
  · simp at h

theorem mem_of_link {target : Text} (h : tree.get? place = some (.link target)) :
    place ∈ tree.entries.map Prod.fst := by
  unfold get? at h
  split at h
  · rename_i entry looked
    obtain ⟨before, after, split, -⟩ := List.lookup_eq_some_iff.1 looked
    simp [split]
  · split at h
    · simp [newDirectory] at h
    · simp at h

/-! ## The same links -/

/-- A name that resolution looks up. -/
structure LooksUp (name : Text) : Prop where
  isPart : Path.isPart name = true
  notUp : name ≠ ['.', '.']
  noNul : hasNul name = false

private theorem LooksUp.of_tests {name : Text}
    (isPart : ¬Path.isPart name = false) (notUp : name ≠ ['.', '.'])
    (noNul : ¬hasNul name = true) : LooksUp name :=
  ⟨by simpa using isPart, notUp, by simpa using noNul⟩

private theorem LooksUp.resolveNames_link {name : Text} {target : Text}
    (h : LooksUp name)
    (link : tree.visible? (place ++ [name]) = some (.link target)) :
    tree.resolveNames fuel resolved place (name :: names) =
      match resolved.lookup (place ++ [name]), fuel with
      | some (some known), fuel => tree.resolveNames fuel resolved known names
      | some none, _ | none, 0 => .ok (.loop (rejoin (place ++ [name]) names))
      | none, fuel + 1 =>
          match tree.resolveNames fuel ((place ++ [name], none) :: resolved)
            (origin place target)
              (splitSlash target) with
          | .error failure => .error failure
          | .ok (.loop inner) => .ok (.loop (rejoin inner names))
          | .ok (.place found resolved) =>
              tree.resolveNames (fuel + 1) ((place ++ [name], some found) ::
                resolved) found names := by
  rw [resolveNames, if_neg (by simp [h.isPart]), if_neg h.notUp,
    if_neg (by simp [h.noNul])]
  simp only [link]
  cases resolved.lookup (place ++ [name]) with
  | none => cases fuel <;> rfl
  | some known? => cases known? <;> rfl

private theorem LooksUp.resolveNames_other {name : Text} (h : LooksUp name)
    (other : ∀ target, tree.visible? (place ++ [name]) ≠ some (.link target)) :
    tree.resolveNames fuel resolved place (name :: names) =
      tree.resolveNames fuel resolved (place ++ [name]) names := by
  rw [resolveNames, if_neg (by simp [h.isPart]), if_neg h.notUp,
    if_neg (by simp [h.noNul])]
  cases there : tree.visible? (place ++ [name]) with
  | none => simp only [there]
  | some entry =>
      cases entry with
      | link target => exact absurd there (other target)
      | file | directory => simp only [there]

/-- The same links can be seen in two trees. -/
structure SameLinks (tree tree' : Tree) : Prop where
  here : tree'.here = tree.here
  visible?_iff : ∀ place target,
    tree'.visible? place = some (.link target) ↔
      tree.visible? place = some (.link target)

/-- Resolution with fuel for the links that are pending depends on these alone. -/
private theorem SameLinks.resolveNames_eq (same : tree.SameLinks tree')
    (enough : tree.pending resolved ≤ fuel)
    (enough' : tree'.pending resolved ≤ fuel') :
    tree'.resolveNames fuel' resolved place names =
      tree.resolveNames fuel resolved place names := by
  -- a link that is not yet met is pending in both trees, so that neither runs
  -- out of fuel here
  have spare {tree : Tree} {fuel : Nat} {resolved : Resolved} {next : Place}
      {target : Text}
      (link : tree.visible? next = some (.link target)) (unmet :
        resolved.lookup next = none)
      (enough : tree.pending resolved ≤ fuel) :
      ∃ n, n + 1 = fuel ∧ tree.pending ((next, none) :: resolved) ≤ n := by
    have fewer := pending_cons (mem_of_link (get?_of_visible? link)) unmet none
    exact ⟨fuel - 1, by omega, by omega⟩
  fun_induction Tree.resolveNames tree fuel resolved place names
    generalizing fuel' with
  | case1 => rw [resolveNames]
  | case2 _ _ _ _ _ notPart ih =>
      rw [resolveNames, if_pos notPart, ih enough enough']
  | case3 _ _ _ _ isPart ih =>
      rw [resolveNames, if_neg isPart, if_pos rfl, ih enough enough']
  | case4 =>
      rename_i isPart notUp nul
      rw [resolveNames, if_neg isPart, if_neg notUp, if_pos nul]
  | case5 =>
      rename_i isPart notUp noNul next target link known met ih
      rw [(LooksUp.of_tests isPart notUp noNul).resolveNames_link
        ((same.visible?_iff _ _).2 link), met]
      exact ih enough enough'
  | case6 =>
      rename_i isPart notUp noNul next target link met
      rw [(LooksUp.of_tests isPart notUp noNul).resolveNames_link
        ((same.visible?_iff _ _).2 link), met]
  | case7 =>
      rename_i isPart notUp noNul next target link unmet
      obtain ⟨n, none', -⟩ := spare link unmet enough
      simp at none'
  | case8 | case9 =>
      rename_i isPart notUp noNul next target link unmet fuel stopped inner ih
      have link' := (same.visible?_iff _ _).2 link
      obtain ⟨n, rfl, fewer'⟩ := spare link' unmet enough'
      obtain ⟨_, ⟨⟩, fewer⟩ := spare link unmet enough
      have inner' := (ih fewer fewer').trans inner
      rw [(LooksUp.of_tests isPart notUp noNul).resolveNames_link link', unmet]
      simp only [inner', next]
  | case10 =>
      rename_i resolved place name names isPart notUp noNul next target link unmet
        fuel found resolved' inner ih ih'
      have link' := (same.visible?_iff _ _).2 link
      have more (place? : Option Place) (other : Place)
          (h : List.lookup other ((next, place?) :: resolved') = none) :
          resolved.lookup other = none :=
        (lookup_cons_eq_none
          (lookup_of_resolveNames inner (lookup_cons_eq_none h).2)).2
      have spent := Nat.le_trans (pending_mono (more (some found))) enough
      have spent' := Nat.le_trans (pending_mono (more (some found))) enough'
      obtain ⟨n, rfl, fewer'⟩ := spare link' unmet enough'
      obtain ⟨_, ⟨⟩, fewer⟩ := spare link unmet enough
      have inner' := (ih fewer fewer').trans inner
      rw [(LooksUp.of_tests isPart notUp noNul).resolveNames_link link', unmet]
      simp only [inner', next]
      exact ih' spent spent'
  | case11 =>
      rename_i isPart notUp noNul next other ih
      rw [(LooksUp.of_tests isPart notUp noNul).resolveNames_other
        fun target link => other target ((same.visible?_iff _ _).1 link)]
      exact ih enough enough'

theorem SameLinks.progressOf_eq (same : tree.SameLinks tree') (path : Path) :
    tree'.progressOf path = tree.progressOf path := by
  have enough (tree : Tree) : tree.pending [] ≤ tree.entries.length + 1 := by
    have := List.countP_le_length
      (p := fun place => (List.lookup place ([] : Resolved)).isNone)
      (l := tree.entries.map Prod.fst)
    rw [List.length_map] at this
    exact Nat.le_succ_of_le this
  unfold progressOf
  rw [same.here]
  exact same.resolveNames_eq (enough tree) (enough tree')

/-- Above every link there are directories. -/
def Housed (tree : Tree) : Prop :=
  ∀ place name target, tree.get? (place ++ [name]) = some (.link target) →
    ∀ before, before <+: place → tree.isDirectoryAt before = true

private theorem isReachable_of_directories (alike : Alike tree tree')
    (directories : ∀ before, before <+: place → before ≠ place →
      tree.isDirectoryAt before = true) :
    tree'.isReachable place = tree.isReachable place := by
  unfold isReachable
  rw [Bool.eq_iff_iff, List.all_eq_true, List.all_eq_true]
  refine forall₂_congr fun depth mem => ?_
  have differs : place.take depth ≠ place := by
    intro same
    have := congrArg List.length same
    rw [List.length_take] at this
    have := List.mem_range.1 mem
    omega
  rw [alike.permits (directories _ (List.take_prefix _ _) differs)]

/-- In a tree whose links stand in directories, files have no part in resolution. -/
theorem Housed.sameLinks (housed : tree.Housed) (alike : Alike tree tree') :
    tree.SameLinks tree' := by
  refine ⟨alike.here, fun place target => ?_⟩
  have link : tree'.get? place = some (.link target) ↔
      tree.get? place = some (.link target) :=
    alike.get?_iff place (.link target) rfl
  have reachable (there : tree.get? place = some (.link target)) :
      tree'.isReachable place = tree.isReachable place := by
    refine isReachable_of_directories alike fun before start differs => ?_
    rcases List.eq_nil_or_concat place with rfl | ⟨above, name, rfl⟩
    · exact absurd (List.prefix_nil.1 start) differs
    · rw [List.concat_eq_append] at there start differs
      exact housed above name target there before
        ((List.prefix_concat_iff.1 start).resolve_left differs)
  constructor
  · intro visible
    have there' := get?_of_visible? visible
    rw [visible?, reachable (link.1 there')] at visible
    rw [visible?, link.1 there']
    rwa [there'] at visible
  · intro visible
    have there := get?_of_visible? visible
    rw [visible?, ← reachable there] at visible
    rw [visible?, link.2 there]
    rwa [there] at visible

theorem Housed.of_alike (housed : tree.Housed) (alike : Alike tree tree') :
    tree'.Housed :=
  fun place name target there before start =>
    alike.isDirectoryAt
      (housed place name target ((alike.get?_iff _ (.link target) rfl).1 there)
        before start)

/-! ## Paths that resolve -/

private theorem stat_of_locate {path : Path} {spot : Spot}
    (located : tree.locate .follow path = .ok spot) :
    (∃ entry, tree.stat path = .ok entry) ∨
      tree.stat path = .error (.system .noEntry) := by
  obtain ⟨place, found?⟩ := spot
  unfold stat
  rw [located, ok_bind]
  cases found? with
  | none => exact .inr rfl
  | some entry => exact .inl ⟨entry, rfl⟩

theorem realPath_of_progressOf {path : Path} {spot : Spot}
    (made : tree.progressOf path = .ok (.place place resolved))
    (located : tree.locate .follow (Path.ofPlace place) = .ok spot) :
    tree.realPath path = .ok place := by
  unfold progressOf at made
  unfold realPath
  dsimp only
  rw [made, ok_bind]
  dsimp only
  rcases stat_of_locate located with ⟨entry, found⟩ | absent
  · rw [found]
    rfl
  · rw [absent]
    rfl

theorem isFile_of_locate {path : Path} {spot : Spot}
    (located : tree.locate .follow path = .ok spot) :
    ∃ answer, tree.isFile path = .ok answer := by
  unfold isFile test
  rcases stat_of_locate located with ⟨entry, found⟩ | absent
  · rw [found]
    exact ⟨_, rfl⟩
  · rw [absent]
    exact ⟨_, rfl⟩

/-! ## Places that resolve to themselves -/

private theorem looksUp_of_isName {name : Text} (h : isName name = true) :
    LooksUp name := by
  obtain ⟨part, notUp, -, noNul⟩ := isName_iff.1 h
  exact ⟨part, notUp, by simpa [hasNul] using noNul⟩

private theorem Straight.resolveNames_eq (h : tree.Straight (place ++ names)) :
    tree.resolveNames fuel resolved place names =
      .ok (.place (place ++ names) resolved) := by
  induction names generalizing place with
  | nil => rw [resolveNames, List.append_nil]
  | cons name names ih =>
      have looksUp := looksUp_of_isName (h.named name (by simp))
      have further : place ++ name :: names = place ++ [name] ++ names := by simp
      rw [looksUp.resolveNames_other (h.noLink _ ⟨names, further.symm⟩),
        ih (further ▸ h), further]

theorem Straight.progressOf_eq (h : tree.Straight place) :
    tree.progressOf (Path.ofPlace place) = .ok (.place place []) :=
  Straight.resolveNames_eq h

theorem Straight.realPath_eq (h : tree.Straight place) {place' : Place}
    (resolved : tree.realPath (Path.ofPlace place) = .ok place') :
    place' = place := by
  have made := h.progressOf_eq
  rcases realPath_eq_ok resolved with ⟨_, made'⟩ | ⟨_, made', -⟩
  · rw [made] at made'
    cases made'
    rfl
  · rw [made] at made'
    cases made'

end Showcase.Files.Tree

import Showcase.Files.RealPath
import Showcase.Proofs.Files.Ends
import Showcase.Proofs.Files.Writing

/-!
# Resolved places

Unless it meets a link that leads back to itself, `realPath` gives a place
without any link that can be seen on the way to it (`straight_of_realPath`).  A
walk to such a place ends there (`Leads.place_eq_of_straight`).
-/

namespace Showcase.Files

theorem mem_of_mem_dropLast {α : Type} {x : α} {xs : List α}
    (h : x ∈ xs.dropLast) : x ∈ xs :=
  (List.dropLast_sublist xs).subset h

namespace Tree

variable {tree : Tree} {fuel : Nat} {resolved : Resolved} {place : Place}
  {names : List Text}

/-! ## Names -/

/-- Names that could stand between slashes. -/
def Slashless (names : List Text) : Prop := ∀ name ∈ names, '/' ∉ name

namespace Slashless

theorem nil : Slashless [] := fun _ mem => absurd mem List.not_mem_nil

theorem append {names' : List Text} (h : Slashless names) (h' : Slashless names') :
    Slashless (names ++ names') :=
  fun name mem => (List.mem_append.1 mem).elim (h name) (h' name)

theorem dropLast (h : Slashless names) : Slashless names.dropLast :=
  fun name mem => h name (mem_of_mem_dropLast mem)

theorem tail {name : Text} (h : Slashless (name :: names)) : Slashless names :=
  fun other mem => h other (List.mem_cons_of_mem _ mem)

theorem snoc {name : Text} (h : Slashless place) (noSlash : '/' ∉ name) :
    Slashless (place ++ [name]) :=
  h.append fun _ mem => List.mem_singleton.1 mem ▸ noSlash

theorem rejoin {names' : List Text} (h : Slashless names) (h' : Slashless names') :
    Slashless (Tree.rejoin names names') := by
  unfold Tree.rejoin
  split
  · exact h'
  · exact h.append h'

theorem normalize (h : Slashless names) : Slashless (normalize names) := by
  have keep (names : List Text) (place : Place) (h : Slashless names)
      (h' : Slashless place) :
      Slashless (names.foldl (fun place name =>
        if name = ['.', '.'] then place.dropLast
        else if Path.isPart name then place ++ [name]
        else place) place) := by
    induction names generalizing place with
    | nil => exact h'
    | cons name names ih =>
        rw [List.foldl_cons]
        refine ih _ h.tail ?_
        split
        · exact h'.dropLast
        · split
          · exact h'.snoc (h name List.mem_cons_self)
          · exact h'
  exact keep names [] h .nil

end Slashless

/-! ## What resolution keeps -/

/-- A property of places that resolution keeps when it goes up, or down to what
is no link. -/
structure Lasting (tree : Tree) (P : Place → Prop) : Prop where
  root : P []
  up : ∀ place, P place → P place.dropLast
  down : ∀ place name, P place → isName name = true →
    (∀ target, tree.visible? (place ++ [name]) ≠ some (.link target)) →
    P (place ++ [name])
  slashless : ∀ place, P place → Slashless place

/-- Places with a property, as far as links resolved to places. -/
def Known (P : Place → Prop) (resolved : Resolved) : Prop :=
  ∀ entry ∈ resolved, ∀ place ∈ entry.2, P place

def Progress.Has (P : Place → Prop) : Progress → Prop
  | .place place resolved => P place ∧ Known P resolved
  | .loop names => Slashless names

private theorem Known.of_lookup {P : Place → Prop} {link : Place}
    (h : Known P resolved) (found : resolved.lookup link = some (some place)) :
    P place := by
  induction resolved with
  | nil => simp at found
  | cons entry resolved ih =>
      obtain ⟨other, place?⟩ := entry
      rw [List.lookup_cons] at found
      split at found
      · cases found
        exact h (other, some place) List.mem_cons_self place rfl
      · exact ih (fun entry mem => h entry (List.mem_cons_of_mem _ mem)) found

theorem Known.cons {P : Place → Prop} {place? : Option Place}
    (h : Known P resolved) (here : ∀ place ∈ place?, P place) (link : Place) :
    Known P ((link, place?) :: resolved) := by
  intro entry mem
  rcases List.mem_cons.1 mem with rfl | mem
  · exact here
  · exact h entry mem

theorem Lasting.resolveNames {P : Place → Prop} (lasting : tree.Lasting P)
    {progress : Progress}
    (h : tree.resolveNames fuel resolved place names = .ok progress)
    (slashless : Slashless names) (here : P place) (known : Known P resolved) :
    progress.Has P := by
  have start (place : Place) (target : Text) (h : P place) :
      P (origin place target) := by
    unfold origin
    split
    · exact lasting.root
    · exact h
  have behind {place : Place} {name : Text} {names : List Text} (h : P place)
      (slashless : Slashless (name :: names)) :
        Slashless (rejoin (place ++ [name]) names) :=
    ((lasting.slashless _ h).snoc (slashless _ List.mem_cons_self)).rejoin
    slashless.tail
  fun_induction Tree.resolveNames tree fuel resolved place names
    generalizing progress with
  | case1 =>
      cases h
      exact ⟨here, known⟩
  | case2 _ _ _ _ _ _ ih => exact ih h slashless.tail here known
  | case3 _ _ _ _ _ ih => exact ih h slashless.tail (lasting.up _ here) known
  | case4 => simp at h
  | case5 =>
      rename_i found ih
      exact ih h slashless.tail (known.of_lookup found) known
  | case6 | case7 =>
      cases h
      exact behind here slashless
  | case8 => simp at h
  | case9 =>
      rename_i inner ih
      cases h
      have noSlash := ih inner (not_mem_splitSlash _) (start _ _ here)
        (known.cons (by simp) _)
      exact noSlash.rejoin slashless.tail
  | case10 =>
      rename_i inner ih ih'
      obtain ⟨there, known'⟩ := ih inner (not_mem_splitSlash _) (start _ _ here)
        (known.cons (by simp) _)
      exact ih' h slashless.tail there (known'.cons (by simpa using there) _)
  | case11 =>
      rename_i name _ part up noNul _ notLink ih
      have named : isName name = true := by
        rw [isName_iff]
        refine ⟨by simpa using part, up, slashless _ List.mem_cons_self, ?_⟩
        simpa [Tree.hasNul] using noNul
      exact ih h slashless.tail (lasting.down _ _ here named notLink) known

/-! ## Places without links -/

/-- No link can be seen on the way to a place. -/
structure Straight (tree : Tree) (place : Place) : Prop where
  named : ∀ name ∈ place, isName name = true
  noLink : ∀ before, before <+: place →
    ∀ target, tree.visible? before ≠ some (.link target)

private theorem lasting_slashless (tree : Tree) : tree.Lasting Slashless where
  root := .nil
  up _ h := h.dropLast
  down _ _ h named _ := h.snoc (isName_iff.1 named).2.2.1
  slashless _ h := h

private theorem lasting_straight (root : tree.isDirectoryAt [] = true) :
    tree.Lasting tree.Straight where
  root := by
    refine ⟨by simp, fun before start target visible => ?_⟩
    obtain rfl := List.prefix_nil.1 start
    unfold visible? at visible
    split at visible
    · simp [Tree.isDirectoryAt, visible, Entry.isDirectory] at root
    · simp at visible
  up place h := ⟨fun name mem => h.named name (mem_of_mem_dropLast mem),
    fun before start => h.noLink before (start.trans (List.dropLast_prefix _))⟩
  down place name h named noLink := by
    refine ⟨?_, fun before start => ?_⟩
    · simpa [or_imp, forall_and] using ⟨h.named, named⟩
    · rcases List.prefix_concat_iff.1 start with rfl | start
      · exact noLink
      · exact h.noLink before start
  slashless place h := fun name mem => (isName_iff.1 (h.named name mem)).2.2.1

/-! ## Real paths -/

/-- Where resolution of a path comes to. -/
def progressOf (tree : Tree) (path : Path) : Except Failure Progress :=
  tree.resolveNames (tree.entries.length + 1) [] (if path.slashes = 0 then
    tree.here else []) path.parts

/-- Whether a path leads through a link that leads back to itself. -/
def Loops (tree : Tree) (path : Path) : Prop :=
  ∃ names, tree.progressOf path = .ok (.loop names)

theorem realPath_eq_ok {path : Path} (h : tree.realPath path = .ok place) :
    (∃ resolved, tree.progressOf path = .ok (.place place resolved)) ∨
      ∃ names, tree.progressOf path = .ok (.loop names) ∧
      place = normalize names := by
  unfold realPath at h
  obtain ⟨progress, made, rest⟩ := bind_eq_ok_iff.1 h
  cases progress with
  | place found resolved =>
      refine .inl ⟨resolved, ?_⟩
      dsimp only at rest
      split at rest
      · simp at rest
      · simp at rest
      · cases rest
        exact made
  | loop names =>
      refine .inr ⟨names, made, ?_⟩
      dsimp only at rest
      split at rest
      · simp at rest
      · simp at rest
      · cases rest
        rfl

section
variable {path : Path}

private theorem slashless_of_named (named : tree.Named) : Slashless tree.here :=
  fun name mem => (isName_iff.1 (named name mem)).2.2.1

theorem slashless_of_realPath (h : tree.realPath path = .ok place)
    (named : tree.Named) (slashless : Slashless path.parts) : Slashless place := by
  have start : Slashless (if path.slashes = 0 then tree.here else []) := by
    split
    · exact slashless_of_named named
    · exact .nil
  have has {progress : Progress} (made : tree.progressOf path = .ok progress) :
      progress.Has Slashless :=
    (lasting_slashless tree).resolveNames made slashless start (by simp [Known])
  rcases realPath_eq_ok h with ⟨resolved, made⟩ | ⟨names, made, rfl⟩
  · exact (has made).1
  · exact Slashless.normalize (has made)

private theorem resolveNames_error {fuel : Nat} {resolved : Resolved}
    {place : Place} {names : List Text} {failure : Failure}
    (h : tree.resolveNames fuel resolved place names = .error failure) :
    failure = .embeddedNul := by
  fun_induction resolveNames tree fuel resolved place names <;> simp_all

theorem realPath_error {failure : Failure}
    (h : tree.realPath path = .error failure) :
    failure = .embeddedNul ∨ failure = .linkLoop := by
  unfold realPath at h
  dsimp only at h
  cases progress : tree.resolveNames (tree.entries.length + 1) []
      (if path.slashes = 0 then tree.here else []) path.parts with
  | error failure' =>
      rw [progress] at h
      cases h
      exact .inl (resolveNames_error progress)
  | ok progress' =>
      rw [progress, ok_bind] at h
      split at h
      · cases h
        exact .inr rfl
      · cases h
        exact .inl rfl
      · simp [pure, Except.pure] at h

/-- No link can be seen on the way to what a path from the root resolves to. -/
theorem straight_of_realPath (root : tree.isDirectoryAt [] = true)
    (h : tree.realPath path = .ok place) (slashes : path.slashes ≠ 0)
    (slashless : Slashless path.parts) (noLoop : ¬tree.Loops path) :
    tree.Straight place := by
  rcases realPath_eq_ok h with ⟨resolved, made⟩ | ⟨names, made, -⟩
  · have lasting := lasting_straight root
    unfold progressOf at made
    rw [if_neg slashes] at made
    exact (lasting.resolveNames made slashless lasting.root (by simp [Known])).1
  · exact absurd ⟨names, made⟩ noLoop

end

/-! ## Walks to such places -/

private theorem isReachable_concat (tree : Tree) (place : Place) (name : Text) :
    tree.isReachable (place ++ [name]) =
      (tree.isReachable place && tree.permits place .search) := by
  unfold isReachable
  rw [List.length_append, List.length_singleton, List.range_succ, List.all_append]
  have below : ∀ depth ∈ List.range place.length,
      tree.permits ((place ++ [name]).take depth) .search =
        tree.permits (place.take depth) .search := by
    intro depth mem
    rw [List.take_append_of_le_length (Nat.le_of_lt (List.mem_range.1 mem))]
  rw [Bool.eq_iff_iff]
  simp only [Bool.and_eq_true, List.all_eq_true]
  refine and_congr (forall₂_congr fun depth mem => below depth mem ▸ Iff.rfl) ?_
  simp

/-- A walk ends where its names lead if no link but the last can be seen on the
way. -/
theorem Leads.place_eq_of_straight {links : Nat} {spot : Spot}
    (h : Leads tree .keep links place names spot)
    (named : ∀ name ∈ names, isName name = true)
    (reachable : tree.isReachable place = true)
    (noLink : ∀ before, before <+: names.dropLast →
      ∀ target, tree.visible? (place ++ before) ≠ some (.link target)) :
    spot.place = place ++ names := by
  induction h with
  | stay => simp
  | empty => exact absurd rfl (proper_of_isName (named _ List.mem_cons_self)).1
  | dot => exact absurd rfl (proper_of_isName (named _ List.mem_cons_self)).2.1
  | up => exact absurd rfl (proper_of_isName (named _ List.mem_cons_self)).2.2
  | absent => rfl
  | kept => rfl
  | @link links place name names target spot enters there more _ _ _ =>
      have further : names ≠ [] := fun none' => more ⟨none', rfl⟩
      have here : [name] <+: (name :: names).dropLast := by
        rw [List.dropLast_cons_of_ne_nil further]
        exact ⟨names.dropLast, rfl⟩
      refine absurd ?_ (noLink [name] here target)
      rw [visible?, isReachable_concat, reachable, enters.search]
      exact there
  | @next links place name names entry spot enters there notLink _ ih =>
      have reachable' : tree.isReachable (place ++ [name]) = true := by
        rw [isReachable_concat, reachable, enters.search]
        rfl
      rw [ih (fun other mem => named other (List.mem_cons_of_mem _ mem))
        reachable' ?_]
      · simp
      · intro before start target
        cases names with
        | nil =>
            obtain rfl := List.prefix_nil.1 start
            rw [List.append_nil, visible?, reachable', if_pos rfl, there]
            exact fun same => notLink target (Option.some.inj same)
        | cons next names =>
            rw [List.append_assoc, List.singleton_append]
            exact noLink (name :: before) (List.cons_prefix_cons.2 ⟨rfl, start⟩)
              target

end Tree

end Showcase.Files

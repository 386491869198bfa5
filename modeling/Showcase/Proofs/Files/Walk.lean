import Showcase.Files.Change
import Showcase.Proofs.Outcome

/-!
# Walks

What a walk passes are directories and links.  Trees that have these in common lead
every path to the same place (`Alike.walk_eq`).
-/

namespace Showcase.Files

/-! ## Names -/

/-- Whether a text can be the name of an entry. -/
def isName (name : Text) : Bool :=
  Path.isPart name && name != ['.', '.'] && !name.contains '/' &&
    !name.contains '\x00'

theorem ne_nil_of_isName {name : Text} (h : isName name = true) : name ≠ [] := by
  rintro rfl
  exact absurd h (by decide)

theorem proper_of_isName {name : Text} (h : isName name = true) :
    name ≠ [] ∧ name ≠ ['.'] ∧ name ≠ ['.', '.'] := by
  refine ⟨ne_nil_of_isName h, ?_, ?_⟩
  · rintro rfl
    exact absurd h (by decide)
  · rintro rfl
    exact absurd h (by decide)

theorem splitSlash_append {part : Text} (noSlash : '/' ∉ part) (text : Text) :
    splitSlash (part ++ '/' :: text) = part :: splitSlash text := by
  induction part with
  | nil => rfl
  | cons c part ih =>
      obtain ⟨notSlash, rest⟩ := not_or.1 (mt List.mem_cons.2 noSlash)
      rw [List.cons_append, splitSlash.eq_def]
      simp [Ne.symm notSlash, ih rest]

theorem splitSlash_eq {part : Text} (noSlash : '/' ∉ part) :
    splitSlash part = [part] := by
  induction part with
  | nil => rfl
  | cons c part ih =>
      obtain ⟨notSlash, rest⟩ := not_or.1 (mt List.mem_cons.2 noSlash)
      rw [splitSlash.eq_def]
      simp [Ne.symm notSlash, ih rest]

private theorem splitSlash_joinSlash {parts : List Text} (more : parts ≠ [])
    (noSlash : ∀ part ∈ parts, '/' ∉ part) :
    splitSlash (joinSlash parts) = parts := by
  induction parts with
  | nil => exact absurd rfl more
  | cons part parts ih =>
      cases parts with
      | nil => exact splitSlash_eq (noSlash part (by simp))
      | cons next parts =>
          rw [joinSlash, splitSlash_append (noSlash part (by simp)),
            ih (by simp) fun other mem => noSlash other (by simp [mem])]
          simp

private theorem joinSlash_ne_nil {part : Text} (parts : List Text) (h : part ≠ []) :
    joinSlash (part :: parts) ≠ [] := by
  cases parts with
  | nil => exact h
  | cons next parts => simp [joinSlash]

private theorem getLast?_joinSlash {parts : List Text}
    (h : ∀ part ∈ parts, part ≠ [] ∧ '/' ∉ part) :
    (joinSlash parts).getLast? ≠ some '/' := by
  induction parts with
  | nil => simp [joinSlash]
  | cons part parts ih =>
      cases parts with
      | nil =>
          rw [joinSlash]
          intro last
          exact (h part (by simp)).2 (List.mem_of_getLast? last)
      | cons next parts =>
          have later := ih fun other mem => h other (by simp [mem])
          obtain ⟨c, text, shape⟩ := List.exists_cons_of_ne_nil
            (joinSlash_ne_nil parts (h next (by simp)).1)
          rw [shape] at later
          have step : joinSlash (part :: next :: parts) = part ++ '/' ::
            joinSlash (next :: parts) := rfl
          rw [step, shape, List.getLast?_append, List.getLast?_cons_cons]
          simpa [List.getLast?_cons] using later

theorem Path.hasNul_ofPlace {place : Place}
    (named : ∀ name ∈ place, isName name = true) :
    (Path.ofPlace place).hasNul = false := by
  simp only [Path.hasNul, Path.ofPlace, List.any_eq_false]
  intro name mem
  have := named name mem
  simp only [isName, Bool.and_eq_true] at this
  simpa using this.2

namespace Tree

theorem splitSlash_replicate (slashes : Nat) (text : Text) :
    splitSlash (List.replicate slashes '/' ++ text) = List.replicate slashes [] ++
      splitSlash text := by
  induction slashes with
  | zero => rfl
  | succ slashes ih =>
      rw [List.replicate_succ, List.cons_append, splitSlash, ih]; rfl

theorem components_joinSlash {parts : List Text} (more : parts ≠ [])
    (h : ∀ part ∈ parts, part ≠ [] ∧ '/' ∉ part) (slashes : Nat) :
    components (List.replicate slashes '/' ++ joinSlash parts) = parts := by
  have nonempty : parts.filter (!·.isEmpty) = parts := by
    rw [List.filter_eq_self]
    intro part mem
    simpa using (h part mem).1
  have noEnd : (List.replicate slashes '/' ++ joinSlash parts).getLast? ≠
      some '/' := by
    have last := getLast?_joinSlash h
    obtain ⟨part, parts, rfl⟩ := List.exists_cons_of_ne_nil more
    obtain ⟨c, rest, shape⟩ := List.exists_cons_of_ne_nil
      (joinSlash_ne_nil parts (h part (by simp)).1)
    rw [shape] at last ⊢
    rw [List.getLast?_append]
    simpa [List.getLast?_cons] using last
  rw [components, splitSlash_replicate, splitSlash_joinSlash more fun part mem =>
    (h part mem).2,
    List.filter_append, nonempty, if_neg (fun both => noEnd both.1)]
  simp

theorem components_ofPlace {place : Place}
    (named : ∀ name ∈ place, isName name = true) :
    components (Path.ofPlace place).toText = place := by
  have text : (Path.ofPlace place).toText = List.replicate 1 '/' ++
      joinSlash place := by
    simp [Path.toText, Path.ofPlace]
  rw [text]
  cases place with
  | nil => rfl
  | cons name names =>
      refine components_joinSlash (by simp) (fun part mem => ?_) 1
      have isName' := named part mem
      refine ⟨ne_nil_of_isName isName', ?_⟩
      simp only [isName, Bool.and_eq_true] at isName'
      simpa using isName'.1.2

/-! ## What a walk passes -/

/-- Whether a walk can look a name up in the directory at a place. -/
structure Enters (tree : Tree) (ending : Ending) (place : Place) (name : Text)
    (names : List Text) :
    Prop where
  directory : tree.isDirectoryAt place = true
  search : tree.permits place .search = true
  proper : name ≠ [] ∧ name ≠ ['.'] ∧ name ≠ ['.', '.']
  noSlash : ¬(ending = .create ∧ names = [[]])
  short : Utf8.size name ≤ maxName

/-- The steps of a walk that ends at a spot. -/
inductive Leads (tree : Tree) (ending : Ending) :
    Nat → Place → List Text → Spot → Prop where
  | stay {links place} : Leads tree ending links place [] ⟨place, tree.get? place⟩
  | empty {links place names spot} : tree.isDirectoryAt place = true →
      Leads tree ending links place names spot →
      Leads tree ending links place ([] :: names) spot
  | dot {links place names spot} : tree.isDirectoryAt place = true →
      tree.permits place .search = true → Leads tree ending links place names spot →
      Leads tree ending links place (['.'] :: names) spot
  | up {links place names spot} : tree.isDirectoryAt place = true →
      tree.permits place .search = true →
      Leads tree ending links place.dropLast names spot →
      Leads tree ending links place (['.', '.'] :: names) spot
  | absent {links place name} : tree.Enters ending place name [] →
      tree.get? (place ++ [name]) = none →
      Leads tree ending links place [name] ⟨place ++ [name], none⟩
  | kept {links place name target} : tree.Enters .keep place name [] →
      ending = .keep →
      tree.get? (place ++ [name]) = some (.link target) →
      Leads tree ending links place [name] ⟨place ++ [name], some (.link target)⟩
  | link {links place name names target spot} :
      tree.Enters ending place name names →
      tree.get? (place ++ [name]) = some (.link target) →
      ¬(names = [] ∧ ending = .keep) →
      target ≠ [] → Leads tree ending links (origin place target)
        (components target ++ names) spot →
      Leads tree ending (links + 1) place (name :: names) spot
  | next {links place name names entry spot} : tree.Enters ending place name names →
      tree.get? (place ++ [name]) = some entry → (∀ target, entry ≠ .link target) →
      Leads tree ending links (place ++ [name]) names spot →
      Leads tree ending links place (name :: names) spot

variable {tree tree' : Tree} {ending : Ending} {links : Nat} {place : Place}
  {names : List Text} {spot : Spot}

/-! ## One step of a walk -/

section Steps

variable {name : Text}

theorem walk_notDirectory (directory : tree.isDirectoryAt place = false) :
    tree.walk ending links place (name :: names) = .error .notDirectory := by
  rw [walk, if_pos directory]

theorem walk_empty (directory : tree.isDirectoryAt place = true) :
    tree.walk ending links place ([] :: names) =
      tree.walk ending links place names := by
  rw [walk, if_neg (by simp [directory]), if_pos rfl]

theorem walk_noSearch (directory : tree.isDirectoryAt place = true)
    (nonempty : name ≠ []) (search : tree.permits place .search = false) :
    tree.walk ending links place (name :: names) = .error .accessDenied := by
  rw [walk, if_neg (by simp [directory]), if_neg nonempty, if_pos search]

theorem walk_dot (directory : tree.isDirectoryAt place = true)
    (search : tree.permits place .search = true) :
    tree.walk ending links place (['.'] :: names) =
      tree.walk ending links place names := by
  rw [walk, if_neg (by simp [directory]), if_neg (by simp),
    if_neg (by simp [search]), if_pos rfl]

theorem walk_up (directory : tree.isDirectoryAt place = true)
    (search : tree.permits place .search = true) :
    tree.walk ending links place (['.', '.'] :: names) =
      tree.walk ending links place.dropLast names := by
  rw [walk, if_neg (by simp [directory]), if_neg (by simp),
    if_neg (by simp [search]), if_neg (by simp), if_pos rfl]

theorem walk_slash (directory : tree.isDirectoryAt place = true)
    (search : tree.permits place .search = true)
    (proper : name ≠ [] ∧ name ≠ ['.'] ∧ name ≠ ['.', '.'])
    (slash : ending = .create ∧ names = [[]]) :
    tree.walk ending links place (name :: names) = .error .isDirectory := by
  obtain ⟨nonempty, notDot, notUp⟩ := proper
  rw [walk, if_neg (by simp [directory]), if_neg nonempty,
    if_neg (by simp [search]), if_neg notDot, if_neg notUp, if_pos slash]

theorem walk_long (directory : tree.isDirectoryAt place = true)
    (search : tree.permits place .search = true)
    (proper : name ≠ [] ∧ name ≠ ['.'] ∧ name ≠ ['.', '.'])
    (noSlash : ¬(ending = .create ∧ names = [[]]))
    (long : maxName < Utf8.size name) :
    tree.walk ending links place (name :: names) = .error .nameTooLong := by
  obtain ⟨nonempty, notDot, notUp⟩ := proper
  rw [walk, if_neg (by simp [directory]), if_neg nonempty,
    if_neg (by simp [search]), if_neg notDot,
    if_neg notUp, if_neg noSlash, if_pos long]

namespace Enters

theorem walk_eq (h : tree.Enters ending place name names) (links : Nat) :
    tree.walk ending links place (name :: names) =
      match tree.get? (place ++ [name]) with
      | none => if names.isEmpty then .ok ⟨place ++ [name], none⟩ else
          .error .noEntry
      | some (.link target) =>
          if names.isEmpty ∧ ending = .keep then
            .ok ⟨place ++ [name], some (.link target)⟩
          else if target = [] then .error .noEntry
          else
            match links with
            | 0 => .error .tooManyLinks
            | links + 1 =>
                tree.walk ending links (origin place target)
                  (components target ++ names)
      | some _ => tree.walk ending links (place ++ [name]) names := by
  obtain ⟨nonempty, notDot, notUp⟩ := h.proper
  rw [walk, if_neg (by simp [h.directory]), if_neg nonempty,
    if_neg (by simp [h.search]), if_neg notDot, if_neg notUp, if_neg h.noSlash]
  exact if_neg (by have := h.short; omega)

theorem walk_link {target : Text} (h : tree.Enters ending place name names)
    (found : tree.get? (place ++ [name]) = some (.link target))
    (notKept : ¬(names = [] ∧ ending = .keep)) (more : target ≠ []) (links : Nat) :
    tree.walk ending (links + 1) place (name :: names) =
      tree.walk ending links (origin place target)
      (components target ++ names) := by
  rw [h.walk_eq, found]
  simp only [List.isEmpty_iff, if_neg notKept, if_neg more]

theorem walk_next {entry : Entry} (h : tree.Enters ending place name names)
    (found : tree.get? (place ++ [name]) = some entry)
    (notLink : ∀ target, entry ≠ .link target) (links : Nat) :
    tree.walk ending links place (name :: names) =
      tree.walk ending links (place ++ [name]) names := by
  rw [h.walk_eq, found]
  cases entry with
  | link target => exact absurd rfl (notLink target)
  | directory | file => rfl

end Enters

end Steps

theorem get?_cases (tree : Tree) (place : Place) :
    tree.get? place = none ∨ (∃ target, tree.get? place = some (.link target)) ∨
      ∃ entry, tree.get? place = some entry ∧ ∀ target, entry ≠ .link target := by
  cases tree.get? place with
  | none => exact .inl rfl
  | some entry =>
      cases entry with
      | link target => exact .inr (.inl ⟨target, rfl⟩)
      | directory | file => exact .inr (.inr ⟨_, rfl, by simp⟩)

/-- Induction along a walk, with one case for each way that a name is taken. -/
@[elab_as_elim]
theorem walk_induction (tree : Tree) (ending : Ending)
    {motive : Nat → Place → List Text → Prop}
    (stay : ∀ links place, motive links place [])
    (notDirectory : ∀ links place name names, tree.isDirectoryAt place = false →
      motive links place (name :: names))
    (empty : ∀ links place names, tree.isDirectoryAt place = true →
      motive links place names → motive links place ([] :: names))
    (noSearch : ∀ links place name names, tree.isDirectoryAt place = true →
      name ≠ [] → tree.permits place .search = false → motive links place
      (name :: names))
    (dot : ∀ links place names, tree.isDirectoryAt place = true →
      tree.permits place .search = true → motive links place names →
      motive links place (['.'] :: names))
    (up : ∀ links place names, tree.isDirectoryAt place = true →
      tree.permits place .search = true → motive links place.dropLast names →
      motive links place (['.', '.'] :: names))
    (slash : ∀ links place name names, tree.isDirectoryAt place = true →
      tree.permits place .search = true →
      (name ≠ [] ∧ name ≠ ['.'] ∧ name ≠ ['.', '.']) → ending = .create ∧
      names = [[]] → motive links place (name :: names))
    (long : ∀ links place name names, tree.isDirectoryAt place = true →
      tree.permits place .search = true →
      (name ≠ [] ∧ name ≠ ['.'] ∧ name ≠ ['.', '.']) →
      ¬(ending = .create ∧ names = [[]]) → maxName < Utf8.size name →
      motive links place (name :: names))
    (enters : ∀ links place name names, tree.Enters ending place name names →
      (∀ links' place names, links' < links → motive links' place names) →
      (∀ place, motive links place names) → motive links place (name :: names))
    (links : Nat) (place : Place) (names : List Text) :
    motive links place names := by
  -- a link is followed with fewer links left, and every other step leaves fewer
  -- names
  induction links using Nat.strongRecOn generalizing place names with
  | _ links fewer =>
    induction names generalizing place with
    | nil => exact stay links place
    | cons name names shorter =>
        cases directory : tree.isDirectoryAt place with
        | false => exact notDirectory links place name names directory
        | true =>
            by_cases nonempty : name = []
            · subst nonempty
              exact empty links place names directory (shorter place)
            cases search : tree.permits place .search with
            | false =>
                exact noSearch links place name names directory nonempty search
            | true =>
                by_cases isDot : name = ['.']
                · subst isDot
                  exact dot links place names directory search (shorter place)
                by_cases isUp : name = ['.', '.']
                · subst isUp
                  exact up links place names directory search
                    (shorter place.dropLast)
                have proper := And.intro nonempty (And.intro isDot isUp)
                by_cases isSlash : ending = .create ∧ names = [[]]
                · exact slash links place name names directory search proper isSlash
                by_cases isLong : maxName < Utf8.size name
                · exact long links place name names directory search proper
                    isSlash isLong
                exact enters links place name names
                  ⟨directory, search, proper, isSlash, Nat.not_lt.1 isLong⟩
                  (fun links' place names less => fewer links' less place names)
                  shorter

theorem leads_of_walk (h : tree.walk ending links place names = .ok spot) :
    Leads tree ending links place names spot := by
  induction links, place, names using walk_induction tree ending with
  | stay =>
      rw [walk] at h
      cases h
      exact .stay
  | notDirectory _ _ _ _ directory => simp [walk_notDirectory directory] at h
  | empty _ _ _ directory ih =>
      exact .empty directory (ih (walk_empty directory ▸ h))
  | noSearch _ _ _ _ directory nonempty search =>
      simp [walk_noSearch directory nonempty search] at h
  | dot _ _ _ directory search ih =>
      exact .dot directory search (ih (walk_dot directory search ▸ h))
  | up _ _ _ directory search ih =>
      exact .up directory search (ih (walk_up directory search ▸ h))
  | slash _ _ _ _ directory search proper slash =>
      simp [walk_slash directory search proper slash] at h
  | long _ _ _ _ directory search proper noSlash long =>
      simp [walk_long directory search proper noSlash long] at h
  | enters links place name names enters fewer shorter =>
      rcases tree.get?_cases (place ++ [name]) with absent | ⟨target, there⟩ |
        ⟨entry, there, notLink⟩
      · rw [enters.walk_eq, absent] at h
        dsimp only at h
        split at h
        next last =>
          cases h
          obtain rfl := List.isEmpty_iff.1 last
          exact .absent enters absent
        next => simp at h
      · rw [enters.walk_eq, there] at h
        dsimp only at h
        split at h
        next kept =>
          cases h
          obtain ⟨last, rfl⟩ := kept
          obtain rfl := List.isEmpty_iff.1 last
          exact .kept enters rfl there
        next notKept =>
          split at h
          next => simp at h
          next more =>
            cases links with
            | zero => simp at h
            | succ links =>
                exact .link enters there (by simpa using notKept) more
                  (fewer _ _ _ (Nat.lt_succ_self links) h)
      · rw [enters.walk_next there notLink] at h
        exact .next enters there notLink (shorter _ h)

theorem Leads.walk_eq (h : Leads tree ending links place names spot) :
    tree.walk ending links place names = .ok spot := by
  induction h with
  | stay => rw [walk]
  | empty directory _ ih => rw [walk_empty directory, ih]
  | dot directory search _ ih => rw [walk_dot directory search, ih]
  | up directory search _ ih => rw [walk_up directory search, ih]
  | absent enters found => simp [enters.walk_eq, found]
  | kept enters kept found =>
      subst kept
      simp [enters.walk_eq, found]
  | link enters found notKept more _ ih =>
      rw [enters.walk_link found notKept more, ih]
  | next enters found notLink _ ih => rw [enters.walk_next found notLink, ih]

private theorem walk_eq_ok_iff :
    tree.walk ending links place names = .ok spot ↔
      Leads tree ending links place names spot :=
  ⟨leads_of_walk, Leads.walk_eq⟩

theorem Leads.found?_eq (h : Leads tree ending links place names spot) :
    spot.found? = tree.get? spot.place := by
  induction h with
  | stay => rfl
  | absent _ found => exact found.symm
  | kept _ _ found => exact found.symm
  | empty _ _ ih => exact ih
  | dot _ _ _ ih => exact ih
  | up _ _ _ ih => exact ih
  | link _ _ _ _ _ ih => exact ih
  | next _ _ _ _ ih => exact ih

theorem Leads.eq_nil_or_directory (h : Leads tree ending links place names spot) :
    names = [] ∨ tree.isDirectoryAt place = true := by
  cases h with
  | stay => exact .inl rfl
  | empty directory _ => exact .inr directory
  | dot directory _ _ => exact .inr directory
  | up directory _ _ => exact .inr directory
  | absent enters _ => exact .inr enters.directory
  | kept enters _ _ => exact .inr enters.directory
  | link enters _ _ _ _ => exact .inr enters.directory
  | next enters _ _ _ => exact .inr enters.directory

/-! ## The first step of a walk -/

theorem Leads.of_empty (h : Leads tree ending links place ([] :: names) spot) :
    tree.isDirectoryAt place = true ∧ Leads tree ending links place names spot := by
  cases h with
  | empty directory later => exact ⟨directory, later⟩
  | absent enters | kept enters | link enters | next enters =>
      exact absurd rfl enters.proper.1

theorem Leads.of_dot (h : Leads tree ending links place (['.'] :: names) spot) :
    tree.isDirectoryAt place = true ∧ Leads tree ending links place names spot := by
  cases h with
  | dot directory _ later => exact ⟨directory, later⟩
  | absent enters | kept enters | link enters | next enters =>
      exact absurd rfl enters.proper.2.1

theorem Leads.of_up (h : Leads tree ending links place (['.', '.'] :: names) spot) :
    tree.isDirectoryAt place = true ∧
      Leads tree ending links place.dropLast names spot := by
  cases h with
  | up directory _ later => exact ⟨directory, later⟩
  | absent enters | kept enters | link enters | next enters =>
      exact absurd rfl enters.proper.2.2

/-- Before more names, a name is that of a link, or of another entry that the
walk passes. -/
theorem Leads.of_name {name : Text}
    (proper : name ≠ [] ∧ name ≠ ['.'] ∧ name ≠ ['.', '.']) (more : names ≠ [])
    (h : Leads tree ending links place (name :: names) spot) :
    (∃ target links', tree.get? (place ++ [name]) = some (.link target) ∧
      target ≠ [] ∧
        Leads tree ending links' (origin place target) (components target ++
          names) spot) ∨
      ∃ entry, tree.get? (place ++ [name]) = some entry ∧
      (∀ target, entry ≠ .link target) ∧
        Leads tree ending links (place ++ [name]) names spot := by
  cases h with
  | empty => exact absurd rfl proper.1
  | dot => exact absurd rfl proper.2.1
  | up => exact absurd rfl proper.2.2
  | absent | kept => exact absurd rfl more
  | link _ there _ nonempty later => exact .inl ⟨_, _, there, nonempty, later⟩
  | next _ there notLink later => exact .inr ⟨_, there, notLink, later⟩

/-- A walk ends at its last name, unless a link is there. -/
theorem Enters.leads {name : Text} (h : tree.Enters ending place name [])
    (notLink : ∀ target, tree.get? (place ++ [name]) ≠ some (.link target))
    (links : Nat) :
    Leads tree ending links place [name] ⟨place ++ [name],
      tree.get? (place ++ [name])⟩ := by
  cases found : tree.get? (place ++ [name]) with
  | none => exact .absent h found
  | some entry =>
      rw [← found]
      refine .next h found ?_ .stay
      rintro target rfl
      exact notLink target found

/-! ## Trees with the same directories and links -/

/-- Trees that hold the same directories and links. -/
structure Alike (tree tree' : Tree) : Prop where
  here : tree'.here = tree.here
  get?_iff : ∀ place entry, entry.isFile = false →
    (tree'.get? place = some entry ↔ tree.get? place = some entry)

namespace Alike

theorem refl (tree : Tree) : Alike tree tree := ⟨rfl, fun _ _ _ => Iff.rfl⟩

theorem trans {tree'' : Tree} (h : Alike tree tree') (h' : Alike tree' tree'') :
    Alike tree tree'' :=
  ⟨h'.here.trans h.here, fun place entry notFile =>
    (h'.get?_iff place entry notFile).trans (h.get?_iff place entry notFile)⟩

theorem symm (h : Alike tree tree') : Alike tree' tree :=
  ⟨h.here.symm, fun place entry notFile => (h.get?_iff place entry notFile).symm⟩

theorem of_files (here : tree'.here = tree.here)
    (h : ∀ place, tree'.get? place = tree.get? place ∨
      (∀ entry, tree.get? place = some entry → entry.isFile = true) ∧
      ∀ entry, tree'.get? place = some entry → entry.isFile = true) :
    Alike tree tree' := by
  refine ⟨here, fun place entry notFile => ?_⟩
  rcases h place with same | ⟨old, new⟩
  · rw [same]
  · constructor
    · intro found
      exact absurd (new entry found) (by simp [notFile])
    · intro found
      exact absurd (old entry found) (by simp [notFile])

private theorem get?_directory (h : Alike tree tree')
    (there : tree.isDirectoryAt place = true) :
    tree'.get? place = tree.get? place := by
  unfold isDirectoryAt at there
  split at there
  next entry found =>
    rw [found, h.get?_iff place entry]
    · exact found
    · cases entry with
      | directory mode => rfl
      | file content mode => simp [Entry.isDirectory] at there
      | link target => rfl
  next => simp at there

theorem isDirectoryAt (h : Alike tree tree')
    (there : tree.isDirectoryAt place = true) :
    tree'.isDirectoryAt place = true := by
  rw [Tree.isDirectoryAt, h.get?_directory there]
  exact there

theorem permits (h : Alike tree tree') (there : tree.isDirectoryAt place = true)
    (right : Right) :
    tree'.permits place right = tree.permits place right := by
  rw [Tree.permits, h.get?_directory there]
  rfl

theorem enters {name : Text} (h : Alike tree tree')
    (there : tree.Enters ending place name names) :
    tree'.Enters ending place name names :=
  ⟨h.isDirectoryAt there.directory,
    by rw [h.permits there.directory]; exact there.search,
    there.proper, there.noSlash, there.short⟩

theorem leads (h : Alike tree tree')
    (found : Leads tree ending links place names spot) :
    Leads tree' ending links place names ⟨spot.place, tree'.get? spot.place⟩ := by
  induction found with
  | stay => exact .stay
  | empty directory _ ih => exact .empty (h.isDirectoryAt directory) ih
  | dot directory search _ ih =>
      exact .dot (h.isDirectoryAt directory)
        (by rw [h.permits directory]; exact search) ih
  | up directory search _ ih =>
      exact .up (h.isDirectoryAt directory)
        (by rw [h.permits directory]; exact search) ih
  | absent enters found =>
      refine (h.enters enters).leads (fun target there => ?_) _
      rw [h.get?_iff _ _ rfl, found] at there
      simp at there
  | kept enters kept found =>
      have found' := (h.get?_iff _ _ rfl).2 found
      simp only [found']
      exact .kept (h.enters enters) kept found'
  | link enters found notKept more _ ih =>
      exact .link (h.enters enters) ((h.get?_iff _ _ rfl).2 found) notKept more ih
  | @next links place name names entry spot enters found notLink rest ih =>
      cases isFile : entry.isFile with
      | false =>
          exact .next (h.enters enters) ((h.get?_iff _ _ isFile).2 found) notLink ih
      | true =>
          have notDirectory : tree.isDirectoryAt (place ++ [name]) = false := by
            cases entry <;>
              simp_all [Tree.isDirectoryAt, Entry.isDirectory, Entry.isFile]
          obtain rfl : names = [] :=
            rest.eq_nil_or_directory.resolve_right (by simp [notDirectory])
          cases rest
          refine (h.enters enters).leads (fun target there => ?_) _
          rw [h.get?_iff _ _ rfl, found] at there
          exact notLink target (Option.some.inj there)

end Alike

/-! ## The text of a path -/

theorem locate_eq_ok_iff {path : Path} :
    tree.locate ending path = .ok spot ↔
      path.hasNul = false ∧ Utf8.size path.toText ≤ maxPath ∧
        Leads tree ending maxLinks (origin tree.here path.toText)
          (components path.toText) spot := by
  unfold locate
  split
  next nul => simp [nul]
  next noNul =>
    split
    next long =>
      simp only [reduceCtorEq, false_iff, not_and]
      omega
    next short =>
      rw [mapError_eq_ok_iff, walk_eq_ok_iff]
      simp only [noNul, true_and, Nat.not_lt.1 short]

theorem locate_found? {path : Path} (h : tree.locate ending path = .ok spot) :
    spot.found? = tree.get? spot.place :=
  (locate_eq_ok_iff.1 h).2.2.found?_eq

theorem Alike.locate_eq (h : Alike tree tree') {path : Path}
    (found : tree.locate ending path = .ok spot) :
    tree'.locate ending path = .ok ⟨spot.place, tree'.get? spot.place⟩ := by
  obtain ⟨noNul, short, led⟩ := locate_eq_ok_iff.1 found
  exact locate_eq_ok_iff.2 ⟨noNul, short, h.here ▸ h.leads led⟩

theorem locate_ofPlace_iff {place : Place}
    (named : ∀ name ∈ place, isName name = true) :
    tree.locate ending (Path.ofPlace place) = .ok spot ↔
      Utf8.size (Path.ofPlace place).toText ≤ maxPath ∧
        Leads tree ending maxLinks [] place spot := by
  rw [locate_eq_ok_iff, Path.hasNul_ofPlace named, components_ofPlace named]
  simp only [true_and]
  rfl

/-! ## The last name -/

theorem Enters.change {name : Text} {ending' : Ending} {names' : List Text}
    (h : tree.Enters ending place name names) (notCreate : ending' ≠ .create) :
    tree.Enters ending' place name names' :=
  ⟨h.directory, h.search, h.proper, fun both => notCreate both.1, h.short⟩

/-- What is no link is found whether or not a link in its place would be
followed. -/
theorem Leads.follow (h : Leads tree .keep links place names spot)
    (notLink : ∀ target, spot.found? ≠ some (.link target)) :
    Leads tree .follow links place names spot := by
  induction h with
  | stay => exact .stay
  | empty directory _ ih => exact .empty directory (ih notLink)
  | dot directory search _ ih => exact .dot directory search (ih notLink)
  | up directory search _ ih => exact .up directory search (ih notLink)
  | absent enters found => exact .absent (enters.change (by simp)) found
  | @kept _ _ _ target _ _ _ => exact absurd rfl (notLink target)
  | link enters found _ more _ ih =>
      exact .link (enters.change (by simp)) found (by simp) more (ih notLink)
  | next enters found isNoLink _ ih =>
      exact .next (enters.change (by simp)) found isNoLink (ih notLink)

/-- One more name, looked up in the directory that a walk leads to. -/
theorem Leads.snoc {name : Text} (h : Leads tree .follow links place names spot)
    (enters : tree.Enters ending spot.place name [])
    (notLink : ∀ target, tree.get? (spot.place ++ [name]) ≠ some (.link target)) :
    Leads tree ending links place (names ++ [name])
      ⟨spot.place ++ [name], tree.get? (spot.place ++ [name])⟩ := by
  have nonempty := enters.proper.1
  have before {place : Place} {other : Text} {names : List Text}
      (enters : tree.Enters .follow place other names) :
      tree.Enters ending place other (names ++ [name]) :=
    ⟨enters.directory, enters.search, enters.proper,
      by simp [List.append_eq_singleton_iff, nonempty], enters.short⟩
  induction h with
  | stay => exact enters.leads notLink _
  | empty directory _ ih => exact .empty directory (ih enters notLink)
  | dot directory search _ ih => exact .dot directory search (ih enters notLink)
  | up directory search _ ih => exact .up directory search (ih enters notLink)
  | absent _ found =>
      have directory := enters.directory
      simp [Tree.isDirectoryAt, found] at directory
  | kept _ kept _ => simp at kept
  | link enters' found _ more _ ih =>
      have led := ih enters notLink
      rw [List.append_assoc] at led
      exact .link (before enters') found (by simp) more led
  | next enters' found isNoLink _ ih =>
      exact .next (before enters') found isNoLink (ih enters notLink)

/-- A walk goes on from the entry that its first names lead to. -/
theorem Leads.walk_append {more : List Text}
    (h : Leads tree .follow links place names spot) (there : spot.found? ≠ none)
    (nonempty : more ≠ []) (notCreate : ending ≠ .create) :
    ∃ links', tree.walk ending links place (names ++ more) = tree.walk ending
      links' spot.place more := by
  induction h with
  | @stay links _ => exact ⟨links, rfl⟩
  | empty directory _ ih =>
      simpa only [List.cons_append, walk_empty directory] using ih there
  | dot directory search _ ih =>
      simpa only [List.cons_append, walk_dot directory search] using ih there
  | up directory search _ ih =>
      simpa only [List.cons_append, walk_up directory search] using ih there
  | absent => exact absurd rfl there
  | kept _ kept _ => simp at kept
  | link enters target _ nonempty' _ ih =>
      rw [List.cons_append, (enters.change notCreate).walk_link target
        (by simp [nonempty]) nonempty', ← List.append_assoc]
      exact ih there
  | next enters found notLink _ ih =>
      rw [List.cons_append, (enters.change notCreate).walk_next found notLink]
      exact ih there

/-- Behind names that lead to nothing, nothing is found. -/
theorem Leads.walk_behind {unused : Place} {more : List Text} {ending' : Ending}
    (h : Leads tree ending' links place names ⟨unused, none⟩) (nonempty : more ≠ [])
    (notCreate : ending ≠ .create) :
    tree.walk ending links place (names ++ more) = .error .noEntry ∨
      tree.walk ending links place (names ++ more) = .error .notDirectory := by
  have absent := h.found?_eq.symm
  generalize last : Spot.mk unused none = spot at h
  induction h with
  | @stay _ place =>
      obtain ⟨rfl, -⟩ := Spot.mk.inj last
      obtain ⟨name, names, rfl⟩ := List.exists_cons_of_ne_nil nonempty
      exact .inr (walk_notDirectory (by simp [isDirectoryAt, absent]))
  | empty directory _ ih =>
      simpa only [List.cons_append, walk_empty directory] using ih last
  | dot directory search _ ih =>
      simpa only [List.cons_append, walk_dot directory search] using ih last
  | up directory search _ ih =>
      simpa only [List.cons_append, walk_up directory search] using ih last
  | absent enters found =>
      left
      rw [List.singleton_append, (enters.change notCreate).walk_eq, found]
      simp [nonempty]
  | kept => simp at last
  | link enters target _ nonempty' _ ih =>
      rw [List.cons_append, (enters.change notCreate).walk_link target
        (by simp [nonempty]) nonempty', ← List.append_assoc]
      exact ih last
  | next enters found notLink _ ih =>
      rw [List.cons_append, (enters.change notCreate).walk_next found notLink]
      exact ih last

/-- Without links on the way, a path leads to the place that it names. -/
theorem Leads.place_eq (h : Leads tree ending links place names spot)
    (named : ∀ name ∈ names, isName name = true)
    (noLinks : ∀ before, before <+: names →
      ∀ target, tree.get? (place ++ before) ≠ some (.link target)) :
    spot.place = place ++ names := by
  induction h with
  | stay => simp
  | empty => exact absurd (named [] (by simp)) (by decide)
  | dot => exact absurd (named ['.'] (by simp)) (by decide)
  | up => exact absurd (named ['.', '.'] (by simp)) (by decide)
  | absent => rfl
  | kept => rfl
  | @link _ _ name _ target _ _ found _ _ _ _ =>
      exact absurd found (noLinks [name] (by simp) target)
  | @next _ place name names _ _ _ _ _ _ ih =>
      rw [ih (fun other mem => named other (by simp [mem])), List.append_assoc]
      · rfl
      · intro before ahead target
        rw [List.append_assoc]
        exact noLinks (name :: before) (by simpa using ahead) target

theorem locate_follow {path : Path} (h : tree.locate .keep path = .ok spot)
    (notLink : ∀ target, spot.found? ≠ some (.link target)) :
    tree.locate .follow path = .ok spot := by
  obtain ⟨noNul, short, led⟩ := locate_eq_ok_iff.1 h
  exact locate_eq_ok_iff.2 ⟨noNul, short, led.follow notLink⟩

/-! ## Failures -/

theorem walk_error {ending : Ending} (notCreate : ending ≠ .create)
    {links : Nat} {place : Place} {names : List Text} {error : SystemError}
    (h : tree.walk ending links place names = .error error) :
    error ∈ [.noEntry, .notDirectory, .tooManyLinks, .nameTooLong,
      .accessDenied] := by
  fun_induction Tree.walk tree ending links place names with
  | case7 => simp_all
  | _ => simp_all

theorem stat_error {path : Path} {failure : Failure}
    (h : tree.stat path = .error failure) :
    failure = .embeddedNul ∨ ∃ error, failure = .system error ∧
      error ∈ [.noEntry, .notDirectory, .tooManyLinks, .nameTooLong,
        .accessDenied] := by
  unfold stat at h
  cases located : tree.locate .follow path with
  | ok spot =>
      rw [located, ok_bind] at h
      cases found : spot.found? with
      | none =>
          rw [found] at h
          cases h
          exact .inr ⟨.noEntry, rfl, by simp⟩
      | some entry =>
          rw [found] at h
          cases h
  | error failure' =>
      rw [located] at h
      cases h
      unfold locate at located
      split at located
      · cases located
        exact .inl rfl
      · split at located
        · cases located
          exact .inr ⟨.nameTooLong, rfl, by simp⟩
        · cases walked : tree.walk .follow maxLinks (origin tree.here path.toText)
              (components path.toText) with
          | ok spot => simp [walked] at located
          | error error =>
              rw [walked] at located
              cases located
              exact .inr ⟨error, rfl, walk_error (by simp) walked⟩

theorem test_error {p : Entry → Bool} {path : Path} {failure : Failure}
    (h : tree.test p path = .error failure) :
    failure = .system .nameTooLong ∨ failure = .system .accessDenied := by
  unfold test at h
  split at h
  all_goals try simp at h
  next failure' noEntry notDirectory tooManyLinks noNul found =>
    subst h
    rcases stat_error found with rfl | ⟨error, rfl, mem⟩
    · exact absurd rfl noNul
    · simp at mem
      rcases mem with rfl | rfl | rfl | rfl | rfl <;> simp_all

end Tree

end Showcase.Files

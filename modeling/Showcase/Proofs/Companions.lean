import Showcase.Companion
import Showcase.Proofs.Files.Links

/-!
# Companions that are removed

The search for a companion gives a path that leads to a file.  What is removed
lies strictly inside the root, unless the import path leads through a link that
leads back to itself (`Removes.inside`).
-/

namespace Showcase

open Files

namespace Files.Tree

theorem unlink_cases (tree : Tree) (path : Path) :
    (∃ failure, tree.unlink path = (.error failure, tree)) ∨
      ∃ place entry, tree.locate .keep path = .ok ⟨place, some entry⟩ ∧
      entry.isDirectory = false ∧
        tree.unlink path = (.ok (), tree.erase place) := by
  unfold unlink
  cases tree.locate .keep path with
  | error failure => exact .inl ⟨failure, rfl⟩
  | ok spot =>
      obtain ⟨place, found?⟩ := spot
      cases found? with
      | none => exact .inl ⟨_, rfl⟩
      | some entry =>
          dsimp only
          split
          · exact .inl ⟨_, rfl⟩
          · split
            · exact .inl ⟨_, rfl⟩
            · split
              · exact .inl ⟨_, rfl⟩
              next notDirectory =>
                exact .inr ⟨place, entry, rfl, by simpa using notDirectory, rfl⟩

private theorem Leads.isDirectoryAt_of_dot {ending : Ending} {links : Nat}
    {place : Place} {names : List Text} {spot : Spot}
    (h : Leads tree ending links place (names ++ [['.']]) spot) :
    tree.isDirectoryAt spot.place = true := by
  -- Either the dot comes first, or it comes behind what the first name leads to.
  have behind (names : List Text) {name : Text} {names' : List Text}
      (whole : names ++ [['.']] = name :: names') :
      (name = ['.'] ∧ names' = []) ∨ ∃ rest, rest ++ [['.']] = names' := by
    cases names with
    | nil => exact .inl ⟨(List.cons.inj whole).1.symm, (List.cons.inj whole).2.symm⟩
    | cons first rest => exact .inr ⟨rest, (List.cons.inj whole).2⟩
  generalize whole : names ++ [['.']] = names' at h
  induction h generalizing names with
  | stay => simp at whole
  | empty _ _ ih =>
      rcases behind names whole with ⟨dot, -⟩ | ⟨rest, later⟩
      · simp at dot
      · exact ih later
  | dot directory _ later ih =>
      rcases behind names whole with ⟨-, rfl⟩ | ⟨rest, more⟩
      · cases later
        exact directory
      · exact ih more
  | up _ _ _ ih =>
      rcases behind names whole with ⟨dot, -⟩ | ⟨rest, later⟩
      · simp at dot
      · exact ih later
  | absent enters =>
      rcases behind names whole with ⟨dot, -⟩ | ⟨rest, later⟩
      · exact absurd dot enters.proper.2.1
      · simp at later
  | kept enters =>
      rcases behind names whole with ⟨dot, -⟩ | ⟨rest, later⟩
      · exact absurd dot enters.proper.2.1
      · simp at later
  | @link _ _ _ _ target _ enters _ _ _ _ ih =>
      rcases behind names whole with ⟨dot, -⟩ | ⟨rest, rfl⟩
      · exact absurd dot enters.proper.2.1
      · exact @ih (components target ++ rest) (List.append_assoc _ _ _)
  | next enters _ _ _ ih =>
      rcases behind names whole with ⟨dot, -⟩ | ⟨rest, later⟩
      · exact absurd dot enters.proper.2.1
      · exact ih later

end Files.Tree

namespace Files

/-! ## Added endings -/

private theorem splitSlash_ne_nil (text : Text) : splitSlash text ≠ [] := by
  fun_induction splitSlash text <;> simp

private theorem splitSlash_append_slash (text rest : Text) :
    splitSlash (text ++ '/' :: rest) = splitSlash text ++ splitSlash rest := by
  fun_induction splitSlash text with
  | case1 => rfl
  | case2 text ih => rw [List.cons_append, splitSlash, ih, List.cons_append]
  | case3 c text other empty _ => exact absurd empty (splitSlash_ne_nil text)
  | case4 c text other part parts shape ih =>
      rw [shape] at ih
      rw [List.cons_append, splitSlash, ih]
      · rfl
      · exact other

private theorem exists_splitSlash_append {name : Text} (noSlash : '/' ∉ name)
    (text : Text) :
    ∃ more parts, splitSlash (name ++ text) = (name ++ more) :: parts := by
  induction name with
  | nil =>
      obtain ⟨part, parts, shape⟩ :=
        List.exists_cons_of_ne_nil (splitSlash_ne_nil text)
      exact ⟨part, parts, shape⟩
  | cons c name ih =>
      obtain ⟨more, parts, shape⟩ :=
        ih (fun mem => noSlash (List.mem_cons_of_mem _ mem))
      refine ⟨more, parts, ?_⟩
      have other : c ≠ '/' := fun same => noSlash (same ▸ List.mem_cons_self)
      rw [List.cons_append, splitSlash, shape]
      · rfl
      · exact other

private theorem joinSlash_concat_append (parts : List Text) (part text : Text) :
    joinSlash (parts ++ [part ++ text]) = joinSlash (parts ++ [part]) ++ text := by
  induction parts with
  | nil => rfl
  | cons first parts ih =>
      have more (last : Text) : joinSlash (first :: (parts ++ [last])) =
          first ++ '/' :: joinSlash (parts ++ [last]) := by
        cases parts <;> rfl
      rw [List.cons_append, more, ih, List.cons_append, more]
      simp

private theorem exists_of_slash_mem {text : Text} (h : '/' ∈ text) :
    ∃ before after, text = before ++ '/' :: after ∧ '/' ∉ after := by
  obtain ⟨after, before, shape, noSlash⟩ :=
    List.eq_append_cons_of_mem (List.mem_reverse.2 h)
  refine ⟨before.reverse, after.reverse, ?_, by simpa using noSlash⟩
  simpa using congrArg List.reverse shape

private theorem isPart_append {name : Text} (h : Path.isPart name = true)
    (more : Text) :
    Path.isPart (name ++ more) = true := by
  simp only [Path.isPart, Bool.and_eq_true, Bool.not_eq_true',
    List.isEmpty_eq_false_iff, bne_iff_ne] at h ⊢
  obtain ⟨c, rest, rfl⟩ := List.exists_cons_of_ne_nil h.1
  refine ⟨by simp, fun same => h.2 ?_⟩
  obtain ⟨first, none'⟩ := List.cons.inj same
  rw [first, (List.append_eq_nil_iff.1 none').1]

/-- A single component with a slash in it ends in a dot. -/
private theorem exists_of_slash_in_component {name ending : Text}
    (isName' : isName name = true) (slash : '/' ∈ name ++ ending)
    (last : (name ++ ending).getLast? ≠ some '/')
    (one : (Path.parse (name ++ ending)).parts.length = 1) :
    ∃ before, name ++ ending = before ++ ['/', '.'] := by
  obtain ⟨part, -, noSlash, -⟩ := isName_iff.1 isName'
  obtain ⟨before, after, shape, noSlash'⟩ := exists_of_slash_mem slash
  obtain ⟨more, rfl⟩ : ∃ more, before = name ++ more := by
    rcases List.append_eq_append_iff.1 shape with ⟨more, same, -⟩ |
      ⟨more, same, rest⟩
    · exact ⟨more, same⟩
    · cases more with
      | nil => exact ⟨[], by simpa using same.symm⟩
      | cons c more =>
          rw [(List.cons.inj rest).1.symm] at same
          exact absurd (by simp [same]) noSlash
  obtain ⟨first, parts, split⟩ := exists_splitSlash_append noSlash more
  have filtered : (Path.parse (name ++ ending)).parts =
      (name ++ first) ::
        (parts.filter Path.isPart ++ [after].filter Path.isPart) := by
    rw [shape, Path.parse]
    simp only [splitSlash_append_slash, split, splitSlash_eq noSlash',
      List.filter_append,
      List.filter_cons_of_pos (isPart_append part first), List.cons_append]
  have none' : Path.isPart after = false := by
    rw [filtered] at one
    cases isPart : Path.isPart after with
    | false => rfl
    | true => simp [isPart] at one
  refine ⟨name ++ more, ?_⟩
  rw [shape]
  simp only [Path.isPart, Bool.and_eq_false_iff, Bool.not_eq_false',
    List.isEmpty_iff, bne_eq_false_iff_eq] at none'
  rcases none' with rfl | rfl
  · exact absurd (by rw [shape]; simp) last
  · rfl

/-- A name with an ending that leads to a file can be the name of an entry. -/
private theorem isName_of_withName? {tree : Tree} {place : Place}
    {name ending : Text} {path : Path} (isName' : isName name = true)
    (named : (Path.ofPlace place).withName? (name ++ ending) = some path)
    (file : tree.isFile path = .ok true) :
    isName (name ++ ending) = true ∧
      path = Path.ofPlace (place.dropLast ++ [name ++ ending]) := by
  obtain ⟨place', content, mode, located⟩ := Tree.isFile_eq_true_iff.1 file
  obtain ⟨noNul, -, leads⟩ := Tree.locate_eq_ok_iff.1 located
  unfold Path.withName? at named
  dsimp only at named
  split at named
  · simp at named
  next single =>
    cases named
    obtain ⟨part, up, noSlash, noNul'⟩ := isName_iff.1 isName'
    simp only [not_or, Decidable.not_not] at single
    obtain ⟨-, last, -, one⟩ := single
    refine ⟨isName_iff.2 ⟨isPart_append part ending, ?_, ?_, ?_⟩, rfl⟩
    · intro same
      obtain ⟨c, rest, rfl⟩ := List.exists_cons_of_ne_nil (ne_nil_of_isName isName')
      obtain ⟨rfl, later⟩ := List.cons.inj same
      cases rest with
      | nil => simp [isName, Path.isPart] at isName'
      | cons c rest =>
          obtain ⟨rfl, none'⟩ := List.cons.inj later
          rw [(List.append_eq_nil_iff.1 none').1] at up
          exact up rfl
    · intro slash
      obtain ⟨before, shape⟩ := exists_of_slash_in_component isName' slash last one
      have text : Path.toText ⟨1, place.dropLast ++ [name ++ ending]⟩ =
          ('/' :: joinSlash (place.dropLast ++ [before])) ++ '/' :: ['.'] := by
        rw [shape, Path.toText, joinSlash_concat_append]
        simp
      have ends :
          Tree.components (Path.toText ⟨1, place.dropLast ++ [name ++ ending]⟩) =
            (splitSlash ('/' :: joinSlash (place.dropLast ++ [before]))).filter
              (!·.isEmpty) ++ [['.']] := by
        have lastDot : (('/' :: joinSlash (place.dropLast ++ [before])) ++ '/' ::
            ['.']).getLast? = some '.' := by
          rw [List.getLast?_append]
          rfl
        rw [text, Tree.components, if_neg (by rw [lastDot]; simp),
          splitSlash_append_slash, List.filter_append]
        rfl
      have shape' : (Path.ofPlace place).parts.dropLast = place.dropLast := rfl
      rw [shape', Path.ofPlace, ends] at leads
      have directory := leads.isDirectoryAt_of_dot
      simp [Tree.isDirectoryAt, ← leads.found?_eq, Entry.isDirectory] at directory
    · intro nul
      simp [Path.hasNul, nul] at noNul

end Files

/-- The ways in which the search for a companion can break off, beside a refusal
of its path. -/
def searchFailures : List Failure :=
  [.embeddedNul, .linkLoop, .invalidName, .system .nameTooLong,
    .system .accessDenied]

namespace Companions

variable {companions : Companions} {tree : Tree}

theorem firstFile?_error {paths : List Path} {failure : Failure}
    (h : firstFile? tree paths = .error failure) : failure ∈ searchFailures := by
  induction paths with
  | nil => simp [firstFile?] at h
  | cons path paths ih =>
      unfold firstFile? at h
      cases tested : tree.isFile path with
      | error failure' =>
          rw [tested] at h
          cases h
          rcases Tree.test_error tested with rfl | rfl <;> simp [searchFailures]
      | ok isFile =>
          rw [tested, ok_bind] at h
          split at h
          · simp [pure, Except.pure] at h
          · exact ih h

theorem resolve_error {source : Text} {failure : Failure}
    (h : companions.resolve tree source = .error failure) :
    (∃ why, failure = .refused why) ∨ failure ∈ searchFailures := by
  have broken {path : Path} (h : tree.realPath path = .error failure) :
      (∃ why, failure = .refused why) ∨ failure ∈ searchFailures := by
    rcases Tree.realPath_error h with
      rfl | rfl <;> exact .inr (by simp [searchFailures])
  rcases bind_eq_error_iff.1 h with h | ⟨base, -, h⟩
  · unfold locate at h
    split at h
    · cases h
      exact .inl ⟨_, rfl⟩
    · rcases bind_eq_error_iff.1 h with h | ⟨root, -, h⟩
      · exact broken h
      rcases bind_eq_error_iff.1 h with h | ⟨base, -, h⟩
      · exact broken h
      split at h
      · simp [pure, Except.pure] at h
      · cases h
        exact .inl ⟨_, rfl⟩
  · rcases bind_eq_error_iff.1 h with h | ⟨paths, -, h⟩
    · rcases bind_eq_error_iff.1 h with h | ⟨extended, -, h⟩
      · obtain ⟨extension, -, failed⟩ := exists_of_mapM_error h
        split at failed
        · simp at failed
        · cases failed
          exact .inr (by simp [searchFailures])
      · simp [pure, Except.pure] at h
    · exact .inr (firstFile?_error h)

/-! ## What is found -/

private theorem isFile_of_firstFile? {paths : List Path} {path : Path}
    (h : firstFile? tree paths = .ok (some path)) :
    path ∈ paths ∧ tree.isFile path = .ok true := by
  induction paths with
  | nil => simp [firstFile?] at h
  | cons first paths ih =>
      unfold firstFile? at h
      obtain ⟨isFile, tested, rest⟩ := bind_eq_ok_iff.1 h
      cases isFile with
      | true =>
          cases rest
          exact ⟨by simp, tested⟩
      | false =>
          obtain ⟨mem, found⟩ := ih rest
          exact ⟨by simp [mem], found⟩

theorem isFile_of_resolve {source : Text} {path : Path}
    (h : companions.resolve tree source = .ok (some path)) :
    tree.isFile path = .ok true := by
  obtain ⟨base, -, h⟩ := bind_eq_ok_iff.1 h
  obtain ⟨paths, -, h⟩ := bind_eq_ok_iff.1 h
  exact (isFile_of_firstFile? h).2

/-- The entry that goes when the file behind an import path is removed. -/
structure Removes (companions : Companions) (tree : Tree) (source : Text)
    (place : Place) : Prop where
  found : ∃ path entry, companions.resolve tree source = .ok (some path) ∧
    tree.locate .keep path = .ok ⟨place, some entry⟩ ∧ entry.isDirectory = false

theorem remove_cases (companions : Companions) (tree : Tree) (source : Text) :
    (∃ failure, companions.resolve tree source = .error failure ∧
        companions.remove tree source = (.error failure, tree)) ∨
      (∃ path?, companions.resolve tree source = .ok path? ∧
        companions.remove tree source = (.ok false, tree)) ∨
      ∃ place, companions.Removes tree source place ∧
        companions.remove tree source = (.ok true, tree.erase place) := by
  unfold remove
  cases resolved : companions.resolve tree source with
  | error failure => exact .inl ⟨failure, rfl, rfl⟩
  | ok path? =>
      cases path? with
      | none => exact .inr (.inl ⟨none, rfl, rfl⟩)
      | some path =>
          rcases tree.unlink_cases path with
            ⟨failure, unlinked⟩ | ⟨place, entry, located, notDirectory, unlinked⟩
          · exact .inr (.inl ⟨some path, rfl, by simp [unlinked]⟩)
          · exact .inr
              (.inr ⟨place, ⟨path, entry, resolved, located, notDirectory⟩,
                by simp [unlinked]⟩)

/-! ## Where it lies -/

private theorem locate_eq_ok {source : Text} {base : Place}
    (h : companions.locate tree source = .ok base) :
    ∃ root, tree.realPath companions.root = .ok root ∧
      tree.realPath ((Path.ofPlace root).join (Path.parse source)) = .ok base ∧
      root <+: base ∧ base ≠ root := by
  unfold locate at h
  split at h
  · simp at h
  obtain ⟨root, resolved, h⟩ := bind_eq_ok_iff.1 h
  obtain ⟨base', resolved', h⟩ := bind_eq_ok_iff.1 h
  split at h
  next inside =>
    cases h
    rw [Bool.and_eq_true, List.isPrefixOf_iff_prefix, bne_iff_ne] at inside
    exact ⟨root, resolved, resolved', inside⟩
  · simp at h

/-- The paths that are tried differ in their last names only. -/
private theorem exists_of_mem_candidates {base : Place} {paths : List Path}
    {path : Path} (h : companions.candidates base = .ok paths)
    (mem : path ∈ paths) (more : base ≠ [])
    (named : ∀ name ∈ base, isName name = true)
    (file : tree.isFile path = .ok true) :
    ∃ ending ∈ [] :: companions.extensions, isName (base.getLast more ++ ending) =
      true ∧
      path = Path.ofPlace (base.dropLast ++ [base.getLast more ++ ending]) := by
  have split : base.dropLast ++ [base.getLast more] = base :=
    List.dropLast_concat_getLast more
  have isName' : isName (base.getLast more) = true :=
    named _ (List.getLast_mem more)
  obtain ⟨extended, made, all⟩ := bind_eq_ok_iff.1 h
  cases all
  rcases List.mem_cons.1 mem with rfl | mem
  · exact ⟨[], List.mem_cons_self, by simpa using isName',
      by rw [List.append_nil, split]⟩
  · obtain ⟨ending, listed, made⟩ := exists_of_mem_mapM made mem
    have last : (Path.ofPlace base).name = base.getLast more := by
      simp [Path.name, Path.ofPlace, List.getLast?_eq_some_getLast more]
    rw [last] at made
    split at made
    next path' named' =>
      cases made
      obtain ⟨isName'', rfl⟩ := isName_of_withName? isName' named' file
      exact ⟨ending, List.mem_cons_of_mem _ listed, isName'', rfl⟩
    · simp at made

/-- What is removed lies strictly inside the root, unless the import path meets
a loop. -/
theorem Removes.inside {source : Text} {place : Place}
    (grounded : tree.Grounded) (proper : companions.root.Proper)
    (removes : companions.Removes tree source place) :
    ∃ root, tree.realPath companions.root = .ok root ∧
      (tree.Loops ((Path.ofPlace root).join (Path.parse source)) ∨
        root <+: place ∧ place ≠ root) := by
  obtain ⟨path, entry, resolved, located, -⟩ := removes.found
  obtain ⟨base, found, rest⟩ := bind_eq_ok_iff.1 resolved
  obtain ⟨paths, tried, first⟩ := bind_eq_ok_iff.1 rest
  obtain ⟨mem, file⟩ := isFile_of_firstFile? first
  obtain ⟨root, resolvedRoot, resolvedBase, ⟨below, rfl⟩, differs⟩ :=
    locate_eq_ok found
  refine ⟨root, resolvedRoot, (Classical.em _).imp id fun noLoop => ?_⟩
  have slashlessRoot : Tree.Slashless root :=
    Tree.slashless_of_realPath resolvedRoot grounded.named fun part mem =>
      (proper part mem).2
  have slashless :
      Tree.Slashless ((Path.ofPlace root).join (Path.parse source)).parts := by
    have ofSource : Tree.Slashless (Path.parse source).parts :=
      fun part mem => (Path.proper_parse source part mem).2
    unfold Path.join
    split
    · exact slashlessRoot.append ofSource
    · exact ofSource
  have slashes : ((Path.ofPlace root).join (Path.parse source)).slashes ≠ 0 := by
    unfold Path.join
    split
    · simp [Path.ofPlace]
    · assumption
  have straight := Tree.straight_of_realPath
    (grounded.directories [] (List.nil_prefix))
    resolvedBase slashes slashless noLoop
  have some : below ≠ [] := by
    rintro rfl
    exact differs (List.append_nil root)
  obtain ⟨ending, -, isName', rfl⟩ :=
    exists_of_mem_candidates tried mem (by simp [some]) straight.named file
  generalize (root ++ below).getLast (by simp [some]) ++ ending = last at *
  have named : ∀ name ∈ (root ++ below).dropLast ++ [last], isName name = true := by
    intro name mem
    rcases List.mem_append.1 mem with mem | mem
    · exact straight.named name (mem_of_mem_dropLast mem)
    · rwa [List.mem_singleton.1 mem]
  obtain ⟨-, leads⟩ := (Tree.locate_ofPlace_iff named).1 located
  have ends := leads.place_eq_of_straight named rfl fun before start => by
    rw [List.dropLast_concat] at start
    exact straight.noLink before (start.trans (List.dropLast_prefix _))
  obtain rfl : place = (root ++ below).dropLast ++ [last] := ends
  rw [List.dropLast_append_of_ne_nil some, List.append_assoc]
  exact ⟨List.prefix_append _ _, by simp⟩

/-! ## Names in a root without links -/

/-- No link can be seen on the way to a place, and none stands in it. -/
structure LinkFree (tree : Tree) (root : Place) : Prop where
  straight : tree.Straight root
  inside : ∀ name target, tree.get? (root ++ [name]) ≠ some (.link target)

private theorem LinkFree.concat {root : Place} {name : Text}
    (h : LinkFree tree root) (isName' : isName name = true) :
    tree.Straight (root ++ [name]) := by
  refine ⟨fun other mem => ?_, fun before start => ?_⟩
  · rcases List.mem_append.1 mem with mem | mem
    · exact h.straight.named other mem
    · rwa [List.mem_singleton.1 mem]
  · rcases List.prefix_concat_iff.1 start with rfl | start
    · exact fun target visible =>
        h.inside name target (Tree.get?_of_visible? visible)
    · exact h.straight.noLink before start

private theorem withName?_eq {place : Place} {name name' : Text}
    (isName' : isName name' = true) :
    (Path.ofPlace (place ++ [name])).withName? name' =
      some (Path.ofPlace (place ++ [name'])) := by
  have noSlash := (isName_iff.1 isName').2.2.1
  have parsed : Path.parse name' = ⟨0, [name']⟩ := by
    have leading : name'.takeWhile (· == '/') = [] := by
      cases name' with
      | nil => rfl
      | cons c rest =>
          have : c ≠ '/' := fun same => noSlash (same ▸ List.mem_cons_self)
          simp [this]
    rw [Path.parse, splitSlash_eq noSlash, leading]
    simp [Path.isPart, proper_of_isName isName']
  have last : name'.getLast? ≠ some '/' := fun same =>
    noSlash (List.mem_of_getLast? same)
  rw [Path.withName?, parsed]
  simp [Path.ofPlace, last]

private theorem parse_relative {name : Text} (isName' : isName name = true) :
    Path.parse ("./".toList ++ name) = ⟨0, [name]⟩ := by
  have parts : splitSlash ("./".toList ++ name) = [['.'], name] := by
    rw [show "./".toList ++ name = ['.'] ++ '/' :: name from rfl,
      splitSlash_append (by simp), splitSlash_eq (isName_iff.1 isName').2.2.1]
  rw [Path.parse, parts]
  simp [Path.isPart, proper_of_isName isName']

/-- The entry that goes for a file name is a file with this name, or with one of
the endings added. -/
theorem Removes.place_eq {name : Text} {root place : Place}
    (isName' : isName name = true) (linkFree : LinkFree tree root)
    (resolved : ∀ root', tree.realPath companions.root = .ok root' → root' = root)
    (removes : companions.Removes tree ("./".toList ++ name) place) :
    (∃ ending ∈ [] :: companions.extensions, place = root ++ [name ++ ending]) ∧
      ∃ content mode, tree.get? place = some (.file content mode) := by
  obtain ⟨path, entry, found, located, notDirectory⟩ := removes.found
  obtain ⟨base, found, rest⟩ := bind_eq_ok_iff.1 found
  obtain ⟨paths, tried, first⟩ := bind_eq_ok_iff.1 rest
  obtain ⟨mem, file⟩ := isFile_of_firstFile? first
  obtain ⟨root', resolved', resolvedBase, -, -⟩ := locate_eq_ok found
  obtain rfl := resolved root' resolved'
  rw [parse_relative isName'] at resolvedBase
  obtain rfl : base = root' ++ [name] :=
    (linkFree.concat isName').realPath_eq resolvedBase
  obtain ⟨ending, listed, isName'', rfl⟩ :=
    exists_of_mem_candidates tried mem (by simp) (linkFree.concat isName').named
    file
  rw [List.dropLast_concat, List.getLast_concat] at *
  have straight := linkFree.concat isName''
  obtain ⟨-, leads⟩ := (Tree.locate_ofPlace_iff straight.named).1 located
  obtain rfl : place = root' ++ [name ++ ending] :=
    leads.place_eq_of_straight straight.named rfl
    fun before start =>
      straight.noLink before (start.trans (List.dropLast_prefix _))
  refine ⟨⟨ending, listed, rfl⟩, ?_⟩
  have there : some entry = tree.get? (root' ++ [name ++ ending]) := leads.found?_eq
  cases entry with
  | file content mode => exact ⟨content, mode, there.symm⟩
  | directory => simp [Entry.isDirectory] at notDirectory
  | link target => exact absurd there.symm (linkFree.inside _ target)

/-- A name of ordinary length in a directory. -/
structure Ordinary (root : Place) (name : Text) : Prop where
  isName : isName name = true
  short : Utf8.size name ≤ Tree.maxName
  shortPath : Utf8.size (Path.ofPlace (root ++ [name])).toText ≤ Tree.maxPath

/-- A directory that can be searched. -/
structure Searchable (tree : Tree) (root : Place) : Prop where
  located : ∃ mode, tree.locate .follow (Path.ofPlace root) =
    .ok ⟨root, some (.directory mode)⟩
  search : tree.permits root .search = true

theorem Searchable.locate_eq {root : Place} {name : Text} (h : Searchable tree root)
    (linkFree : LinkFree tree root) (ordinary : Ordinary root name) :
    tree.locate .follow (Path.ofPlace (root ++ [name])) =
      .ok ⟨root ++ [name], tree.get? (root ++ [name])⟩ := by
  obtain ⟨mode, located⟩ := h.located
  obtain ⟨-, leads⟩ := (Tree.locate_ofPlace_iff linkFree.straight.named).1 located
  have directory : tree.isDirectoryAt root = true := by
    have there : some (.directory mode) = tree.get? root := leads.found?_eq
    simp [Tree.isDirectoryAt, ← there, Entry.isDirectory]
  have enters : tree.Enters .keep root name [] :=
    ⟨directory, h.search, proper_of_isName ordinary.isName, by simp, ordinary.short⟩
  have named := (linkFree.concat ordinary.isName).named
  exact Tree.locate_follow ((Tree.locate_ofPlace_iff named).2 ⟨ordinary.shortPath,
    leads.snoc enters (linkFree.inside name)⟩) (linkFree.inside name)

private theorem exists_firstFile? {paths : List Path}
    (h : ∀ path ∈ paths, ∃ answer, tree.isFile path = .ok answer) :
    ∃ path?, firstFile? tree paths = .ok path? := by
  induction paths with
  | nil => exact ⟨none, rfl⟩
  | cons path paths ih =>
      obtain ⟨answer, found⟩ := h path List.mem_cons_self
      rw [firstFile?, found, ok_bind]
      cases answer with
      | true => exact ⟨some path, rfl⟩
      | false => exact ih fun other mem => h other (List.mem_cons_of_mem _ mem)

/-- The search for a file name of ordinary length comes to an end. -/
theorem exists_resolve {name : Text} {root : Place} {met : Tree.Resolved}
    (linkFree : LinkFree tree root) (searchable : Searchable tree root)
    (resolved : tree.progressOf companions.root = .ok (.place root met))
    (ordinary : ∀ ending ∈ [] :: companions.extensions,
      Ordinary root (name ++ ending)) :
    ∃ path?, companions.resolve tree ("./".toList ++ name) = .ok path? := by
  have plain : Ordinary root name := by simpa using ordinary [] List.mem_cons_self
  have found : companions.locate tree ("./".toList ++ name) =
      .ok (root ++ [name]) := by
    obtain ⟨_, located⟩ := searchable.located
    have relative : "./".toList.isPrefixOf ("./".toList ++ name) = true :=
      List.isPrefixOf_iff_prefix.2 (List.prefix_append _ _)
    have base : tree.realPath ((Path.ofPlace root).join ⟨0, [name]⟩) =
        .ok (root ++ [name]) :=
      Tree.realPath_of_progressOf (linkFree.concat plain.isName).progressOf_eq
        (searchable.locate_eq linkFree plain)
    have inside : root.isPrefixOf (root ++ [name]) = true :=
      List.isPrefixOf_iff_prefix.2 (List.prefix_append _ _)
    rw [locate, relative, Tree.realPath_of_progressOf resolved located, ok_bind,
      parse_relative plain.isName, base, ok_bind, inside]
    simp [pure, Except.pure]
  have tried : companions.candidates (root ++ [name]) =
      .ok (Path.ofPlace (root ++ [name]) ::
      companions.extensions.map fun ending =>
        Path.ofPlace (root ++ [name ++ ending])) := by
    have last : (Path.ofPlace (root ++ [name])).name = name := by
      simp [Path.name, Path.ofPlace]
    rw [candidates, last, mapM_eq_map fun ending listed => by
      rw [withName?_eq (ordinary ending (List.mem_cons_of_mem _ listed)).isName]]
    rfl
  have searched : ∀ path ∈ Path.ofPlace (root ++ [name]) ::
      companions.extensions.map (fun ending =>
        Path.ofPlace (root ++ [name ++ ending])),
      ∃ answer, tree.isFile path = .ok answer := by
    intro path mem
    rcases List.mem_cons.1 mem with rfl | mem
    · exact Tree.isFile_of_locate (searchable.locate_eq linkFree plain)
    · obtain ⟨ending, listed, rfl⟩ := List.mem_map.1 mem
      exact Tree.isFile_of_locate
        (searchable.locate_eq linkFree
          (ordinary ending (List.mem_cons_of_mem _ listed)))
  obtain ⟨path?, first⟩ := exists_firstFile? searched
  exact ⟨path?, by rw [resolve, found, ok_bind, tried, ok_bind, first]⟩

end Companions

end Showcase

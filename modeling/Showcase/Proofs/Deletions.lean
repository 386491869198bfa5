import Showcase.Proofs.Changes
import Showcase.Proofs.Companions

/-!
# Deleted versions

A deletion writes the registry and then looks for the companion file.
-/

namespace Showcase

open Files Registry

/-! ## The outcomes of a deletion -/

namespace Catalogue

/-- A deletion asks for this edit of the registry. -/
structure Asks (catalogue : Catalogue) (tree : Tree) (id : Json)
    (ids : List CodePoint) (removal : Removal) : Prop where
  accepted : checkId id = .ok ids
  edit : ∃ text, catalogue.readRegistry tree = .ok text ∧
    Registry.remove text catalogue.listName ids = .ok removal

variable {catalogue : Catalogue} {tree : Tree} {id : Json}

theorem delete_eq_of_asks {ids : List CodePoint} {removal : Removal}
    (asks : catalogue.Asks tree id ids removal) :
    catalogue.delete tree id =
      match tree.writeText catalogue.registry removal.text with
      | (.error failure, after) => (.error failure, after)
      | (.ok (), written) =>
          let (answer, after) := catalogue.removeCompanion written removal
          (answer.map (⟨ids, true, ·⟩), after) := by
  obtain ⟨accepted, text, read, removed⟩ := asks
  simp only [delete, accepted, read, removed, ok_bind]
  rfl

theorem delete_of_removed {ids : List CodePoint} {removal : Removal}
    {written after : Tree} (asks : catalogue.Asks tree id ids removal)
    (unshared : removal.shared = false)
    (wrote : tree.writeText catalogue.registry removal.text = (.ok (), written))
    (removed : catalogue.companions.remove written removal.source =
      (.ok true, after)) :
    catalogue.delete tree id = (.ok ⟨ids, true, true⟩, after) := by
  rw [delete_eq_of_asks asks, wrote]
  dsimp only
  rw [removeCompanion, if_neg (by simp [unshared]), removed]
  rfl

private theorem delete_cases (catalogue : Catalogue) (tree : Tree) (id : Json) :
    (∃ failure, catalogue.delete tree id = (.error failure, tree)) ∨
      ∃ ids removal, catalogue.Asks tree id ids removal := by
  cases accepted : checkId id with
  | error failure => exact .inl ⟨failure, by simp only [delete, accepted]; rfl⟩
  | ok ids =>
      cases read : catalogue.readRegistry tree with
      | error failure =>
          exact .inl ⟨failure, by simp only [delete, accepted, read]; rfl⟩
      | ok text =>
          cases removed : Registry.remove text catalogue.listName ids with
          | error failure =>
              exact .inl ⟨failure,
                by simp only [delete, accepted, read, ok_bind, removed]; rfl⟩
          | ok removal => exact .inr ⟨ids, removal, accepted, text, read, removed⟩

theorem delete_of_wrote {ids : List CodePoint} {removal : Removal} {written : Tree}
    (asks : catalogue.Asks tree id ids removal)
    (wrote : tree.writeText catalogue.registry removal.text = (.ok (), written)) :
    (catalogue.delete tree id = (.ok ⟨ids, true, false⟩, written) ∧
        (removal.shared = true ∨
          (∃ path?, catalogue.companions.resolve written removal.source =
            .ok path?) ∨
          ∃ why, catalogue.companions.resolve written removal.source =
            .error (.refused why))) ∨
      (∃ place, catalogue.delete tree id =
        (.ok ⟨ids, true, true⟩, written.erase place) ∧
        removal.shared = false ∧
        catalogue.companions.Removes written removal.source place) ∨
      ∃ failure, catalogue.delete tree id = (.error failure, written) ∧
      removal.shared = false ∧
        catalogue.companions.resolve written removal.source = .error failure ∧
        failure ∈ searchFailures := by
  rw [delete_eq_of_asks asks, wrote]
  dsimp only
  unfold removeCompanion
  split
  next shared => exact .inl ⟨rfl, .inl shared⟩
  next notShared =>
    have alone : removal.shared = false := by simpa using notShared
    rcases catalogue.companions.remove_cases written removal.source with
      ⟨failure, failed, removed⟩ | ⟨path?, found, removed⟩ |
        ⟨place, removes, removed⟩
    · rw [removed]
      rcases Companions.resolve_error failed with ⟨why, rfl⟩ | cause
      · exact .inl ⟨rfl, .inr (.inr ⟨why, failed⟩)⟩
      · cases failure with
        | refused why => simp [searchFailures] at cause
        | _ => exact .inr (.inr ⟨_, rfl, alone, failed, cause⟩)
    · rw [removed]
      exact .inl ⟨rfl, .inr (.inl ⟨path?, found⟩)⟩
    · rw [removed]
      exact .inr (.inl ⟨place, rfl, alone, removes⟩)

/-- A deletion changes nothing, or writes the registry without a record. -/
theorem delete_unchanged_or_wrote (named : tree.Named)
    (proper : catalogue.registry.Proper) (id : Json) :
    (∃ failure, catalogue.delete tree id = (.error failure, tree)) ∨
      ∃ ids removal written, catalogue.Asks tree id ids removal ∧
        tree.writeText catalogue.registry removal.text = (.ok (), written) := by
  rcases catalogue.delete_cases tree id with failed | ⟨ids, removal, asks⟩
  · exact .inl failed
  rcases Tree.writeText_cases named proper removal.text with
    ⟨failure, failed⟩ | ⟨mode, target, written, -, -, -, wrote, -⟩
  · exact .inl ⟨failure, by rw [delete_eq_of_asks asks, failed]⟩
  · exact .inr ⟨ids, removal, written, asks, wrote⟩

/-! ## Deletions that fail -/

/-- A deletion that fails leaves every file as it was, unless the registry is
written and the search for the companion breaks off; a deletion that writes the
registry fails only so. -/
theorem delete_atomic (named : tree.Named) (proper : catalogue.registry.Proper)
    (id : Json) :
    (∀ failure, (catalogue.delete tree id).1 = .error failure →
      (catalogue.delete tree id).2 = tree ∨
        ∃ ids removal written, catalogue.Asks tree id ids removal ∧
          tree.writeText catalogue.registry removal.text = (.ok (), written) ∧
          (catalogue.delete tree id).2 = written ∧ removal.shared = false ∧
          catalogue.companions.resolve written removal.source = .error failure ∧
          failure ∈ searchFailures) ∧
    ∀ ids removal written, catalogue.Asks tree id ids removal →
      tree.writeText catalogue.registry removal.text = (.ok (), written) →
      (∀ failure ∈ searchFailures,
        catalogue.companions.resolve written removal.source ≠ .error failure) →
        ∃ fileRemoved, (catalogue.delete tree id).1 =
          .ok ⟨ids, true, fileRemoved⟩ := by
  constructor
  · intro failure failed
    rcases delete_unchanged_or_wrote named proper id with
      ⟨failure', unchanged⟩ | ⟨ids, removal, written, asks, wrote⟩
    · exact .inl (by rw [unchanged])
    rcases delete_of_wrote asks wrote with
      ⟨kept, -⟩ | ⟨place, gone, -, -⟩ | ⟨failure', broken, alone, search, cause⟩
    · simp [kept] at failed
    · simp [gone] at failed
    · obtain rfl : failure' = failure := by simpa [broken] using failed
      exact .inr ⟨ids, removal, written, asks, wrote, by rw [broken], alone,
        search, cause⟩
  · intro ids removal written asks wrote searchable
    rcases delete_of_wrote asks wrote with
      ⟨kept, -⟩ | ⟨place, gone, -, -⟩ | ⟨failure, -, -, failed, cause⟩
    · exact ⟨false, by rw [kept]⟩
    · exact ⟨true, by rw [gone]⟩
    · exact absurd failed (searchable failure cause)

/-! ## Files that stay -/

private theorem exists_of_wrote {text new : Text} {written : Tree}
    (named : tree.Named) (proper : catalogue.registry.Proper)
    (read : catalogue.readRegistry tree = .ok text)
    (wrote : tree.writeText catalogue.registry new = (.ok (), written)) :
    ∃ target mode, tree.locate .keep catalogue.registry = .ok target ∧
      tree.IsEnd target.place ∧
      tree.Puts target.place (.file (Utf8.encode new) mode) written ∧
      (Entry.file (Utf8.encode new) mode).permits .read = true ∧
      written.locate .keep catalogue.registry =
        .ok ⟨target.place, some (.file (Utf8.encode new) mode)⟩ := by
  obtain ⟨place, content, mode, located, readable, -⟩ :=
    Tree.exists_of_readText (readText_of_readRegistry read)
  obtain ⟨target, kept, puts⟩ :=
    Tree.exists_puts_of_wrote named proper
    (Tree.stat_eq_ok_iff.2 ⟨place, located⟩) wrote
  have isEnd := Tree.isEnd_of_locate kept located
  have there := puts.get?_eq target.place
  rw [if_pos rfl] at there
  refine ⟨target, mode, kept, isEnd, puts,
    by simpa [Entry.permits, Entry.mode] using readable, ?_⟩
  have located' := Tree.locate_elsewhere puts.here
    (fun other differs => by rw [puts.get?_eq, if_neg differs]) (.refl tree) isEnd
    (by simp [there]) kept
  rw [there] at located'
  exact (located'.resolve_left fun elsewhere => elsewhere.1 rfl).1

/-- When an entry goes behind which no walk goes on, a file is lost only if it
is that entry. -/
private theorem locate_erase {path : Path} {place ended : Place}
    {content : ByteArray} {mode : Nat} (more : ended ≠ [])
    (isEnd : tree.IsEnd ended)
    (located : tree.locate .keep path = .ok ⟨place, some (.file content mode)⟩) :
    (tree.erase ended).locate .keep path =
      .ok ⟨place, if place = ended then none else some (.file content mode)⟩ := by
  have gone : (tree.erase ended).get? ended = none := by
    rw [Tree.get?_erase _ _ more, if_pos rfl]
  have agree (other : Place) (differs : other ≠ ended) :
      (tree.erase ended).get? other = tree.get? other := by
    rw [Tree.get?_erase _ _ more, if_neg differs]
  have here : (tree.erase ended).here = tree.here := rfl
  have outcome := Tree.locate_elsewhere here agree (.refl tree) isEnd
    (by simp [gone]) located
  rw [gone] at outcome
  rcases outcome with ⟨other, stays⟩ | ⟨absent, same⟩
  · rw [if_neg other]
    exact stays
  · obtain rfl : place = ended := same rfl
    rw [if_pos rfl]
    exact absent

theorem readText_erase_iff {path : Path} {place ended : Place}
    {content : ByteArray} {mode : Nat} {text : Text} (more : ended ≠ [])
    (isEnd : tree.IsEnd ended)
    (located : tree.locate .keep path = .ok ⟨place, some (.file content mode)⟩)
    (readable : (Files.Entry.file content mode).permits .read = true)
    (decoded : Utf8.decode? content = some text) :
    (tree.erase ended).readText path = .ok text ↔ place ≠ ended := by
  have outcome := locate_erase more isEnd located
  constructor
  · rintro read rfl
    obtain ⟨_, _, _, followed, -, -⟩ := Tree.exists_of_readText read
    simp [Tree.locate_follow outcome (by simp)] at followed
  · intro differs
    rw [if_neg differs] at outcome
    exact Tree.readText_eq_of_locate (Tree.locate_follow outcome (by simp))
      readable decoded

theorem doesExist_erase {path : Path} {place : Place} {content : ByteArray}
    {mode : Nat} (more : place ≠ []) (isEnd : tree.IsEnd place)
    (located : tree.locate .keep path = .ok ⟨place, some (.file content mode)⟩) :
    (tree.erase place).doesExist path = .ok false := by
  have outcome := locate_erase more isEnd located
  rw [if_pos rfl] at outcome
  simp only [Tree.doesExist, Tree.test, Tree.stat,
    Tree.locate_follow outcome (by simp), ok_bind]

/-- A file that is there without an entry stays when the registry is written and
the entry goes. -/
private theorem isFile_erase_of_puts {written : Tree} {path : Path}
    {place ended : Place} {content : ByteArray} {mode : Nat} (more : place ≠ [])
    (isEnd : tree.IsEnd ended)
    (puts : tree.Puts ended (.file content mode) written)
    (without : (tree.erase place).isFile path = .ok true) :
    (written.erase place).isFile path = .ok true := by
  by_cases same : place = ended
  · subst same
    have equal (other : Place) : (written.erase place).get? other =
        (tree.erase place).get? other := by
      rw [Tree.get?_erase _ _ more, Tree.get?_erase _ _ more, puts.get?_eq]
      split <;> rfl
    have alike : Tree.Alike (tree.erase place) (written.erase place) :=
      .of_files puts.here fun other => .inl (equal other)
    obtain ⟨spot, _, _, located⟩ := Tree.isFile_eq_true_iff.1 without
    have located' := alike.locate_eq located
    rw [equal, ← Tree.locate_found? located] at located'
    exact Tree.isFile_eq_true_iff.2 ⟨_, _, _, located'⟩
  · have there : (written.erase place).get? ended = some (.file content mode) := by
      rw [Tree.get?_erase _ _ more, if_neg (Ne.symm same), puts.get?_eq, if_pos rfl]
    have agree (other : Place) (differs : other ≠ ended) :
        (written.erase place).get? other = (tree.erase place).get? other := by
      rw [Tree.get?_erase _ _ more, Tree.get?_erase _ _ more, puts.get?_eq,
        if_neg differs]
    have here : (written.erase place).here = (tree.erase place).here := puts.here
    exact Tree.isFile_of_file_at_end here agree (.erase tree more)
      isEnd there without

/-- A deletion that returns has written the registry, and the entry of the
companion is gone if one was found. -/
theorem exists_of_deleted (grounded : tree.Grounded)
    (proper : catalogue.registry.Proper) {deletion : Deletion} {after : Tree}
    (deleted : catalogue.delete tree id = (.ok deletion, after)) :
    ∃ ids removal written target mode, ∃ gone? : Option Place,
      catalogue.Asks tree id ids removal ∧
      tree.writeText catalogue.registry removal.text = (.ok (), written) ∧
      tree.locate .keep catalogue.registry = .ok target ∧ tree.IsEnd target.place ∧
      tree.Puts target.place (.file (Utf8.encode removal.text) mode) written ∧
      (Entry.file (Utf8.encode removal.text) mode).permits .read = true ∧
      written.locate .keep catalogue.registry =
        .ok ⟨target.place, some (.file (Utf8.encode removal.text) mode)⟩ ∧
      deletion = ⟨ids, true, gone?.isSome⟩ ∧
      (gone? = none ∧ after = written ∨
        ∃ place, gone? = some place ∧ place ≠ [] ∧ written.IsEnd place ∧
          after = written.erase place ∧ removal.shared = false ∧
          catalogue.companions.Removes written removal.source place) := by
  rcases delete_unchanged_or_wrote grounded.named proper id with
    ⟨failure, unchanged⟩ | ⟨ids, removal, written, asks, wrote⟩
  · simp [unchanged] at deleted
  obtain ⟨text, read, -⟩ := asks.edit
  obtain ⟨target, mode, kept, isEnd, puts, readable, located⟩ :=
    exists_of_wrote grounded.named proper read wrote
  rcases delete_of_wrote asks wrote with
    ⟨answer, -⟩ | ⟨place, answer, alone, removes⟩ | ⟨failure, answer, -, -, -⟩
  · obtain ⟨rfl, rfl⟩ : deletion = ⟨ids, true, false⟩ ∧ after = written := by
      simpa [answer, eq_comm] using deleted
    exact ⟨ids, removal, _, target, mode, none, asks, wrote, kept, isEnd, puts,
      readable, located, rfl, .inl ⟨rfl, rfl⟩⟩
  · obtain ⟨rfl, rfl⟩ : deletion = ⟨ids, true, true⟩ ∧
        after = written.erase place := by
      simpa [answer, eq_comm] using deleted
    obtain ⟨path, entry, resolved, atPlace, notDirectory⟩ := removes.found
    obtain ⟨_, _, _, followed⟩ :=
      Tree.isFile_eq_true_iff.1 (Companions.isFile_of_resolve resolved)
    have isEnd' : written.IsEnd place := Tree.isEnd_of_locate atPlace followed
    have more : place ≠ [] := by
      rintro rfl
      have root := grounded.directories [] List.nil_prefix
      have agree : ∀ other, other ≠ target.place →
          written.get? other = tree.get? other :=
        fun other differs => by rw [puts.get?_eq, if_neg differs]
      have : written.isDirectoryAt [] = true := by
        rw [Tree.isDirectoryAt_of_ne agree
          (Tree.ne_of_isDirectoryAt (.refl tree) isEnd root), root]
      simp [isEnd'.isDirectoryAt_eq] at this
    exact ⟨ids, removal, written, target, mode, some place, asks, wrote, kept,
      isEnd, puts, readable,
      located, rfl, .inr ⟨place, rfl, more, isEnd', rfl, alone, removes⟩⟩
  · simp [answer] at deleted

/-- When a deletion returns, the registry holds the new text unless its place is
that of the removed companion, and a companion that can be reached without the
removed one is still there. -/
theorem delete_spares (grounded : tree.Grounded)
    (proper : catalogue.registry.Proper) {deletion : Deletion} {after : Tree}
    (deleted : catalogue.delete tree id = (.ok deletion, after)) :
    ∃ ids removal text written target, ∃ gone? : Option Place,
      catalogue.Asks tree id ids removal ∧ catalogue.readRegistry tree = .ok text ∧
      tree.writeText catalogue.registry removal.text = (.ok (), written) ∧
      tree.locate .keep catalogue.registry = .ok target ∧
      deletion = ⟨ids, true, gone?.isSome⟩ ∧
      (∀ place ∈ gone?, removal.shared = false ∧
        catalogue.companions.Removes written removal.source place) ∧
      (∀ other, other ≠ target.place → other ∉ gone? →
        after.get? other = tree.get? other) ∧
      (after.readText catalogue.registry = .ok removal.text ↔
        target.place ∉ gone?) ∧
      ∀ old record statement path, scan text catalogue.listName = .ok old →
      record ∈ old.records →
        old.companionImport? record = some statement →
        catalogue.companions.resolve tree statement.source = .ok (some path) →
        (∀ place ∈ gone?, (tree.erase place).isFile path = .ok true) →
          after.isFile path = .ok true := by
  obtain ⟨ids, removal, written, target, mode, gone?, asks, wrote, kept, isEnd,
    puts, readable, located,
    returned, outcome⟩ := exists_of_deleted grounded proper deleted
  obtain ⟨text, read, -⟩ := asks.edit
  have agree : ∀ other, other ≠ target.place →
      written.get? other = tree.get? other :=
    fun other differs => by rw [puts.get?_eq, if_neg differs]
  have there := puts.get?_eq target.place
  rw [if_pos rfl] at there
  have decoded := Utf8.decode?_encode removal.text
  refine ⟨ids, removal, text, written, target, gone?, asks, read, wrote,
    kept, returned, ?_⟩
  rcases outcome with ⟨rfl, rfl⟩ | ⟨place, rfl, more, isEnd', rfl, alone, removes⟩
  · refine ⟨by simp, fun other differs _ => agree other differs, ?_, ?_⟩
    · simp [Tree.readText_eq_of_locate (Tree.locate_follow located (by simp))
        readable decoded]
    · intro old record statement path _ _ _ resolved _
      exact Tree.isFile_of_file_at_end puts.here agree (.refl tree) isEnd there
        (Companions.isFile_of_resolve resolved)
  · refine ⟨?_, ?_, ?_, ?_⟩
    · rintro other ⟨⟩
      exact ⟨alone, removes⟩
    · intro other differs stays
      rw [Tree.get?_erase _ _ more, if_neg (fun same => stays (by simp [same])),
        agree other differs]
    · rw [readText_erase_iff more isEnd' located readable decoded]
      simp [eq_comm]
    · intro old record statement path _ _ _ _ without
      exact isFile_erase_of_puts more isEnd puts (without place rfl)

/-! ## Sources that cannot be searched for -/

theorem asks_alone {text : Text} {removal : Removal}
    (removed : Registry.remove text alone.listName (toPoints "a".toList) =
      .ok removal) :
    alone.Asks (aloneTree text) (.ofString "a") (toPoints "a".toList) removal :=
  ⟨by decide, text, readRegistry_alone text, removed⟩

private theorem realPath_root {after : Tree} (here : after.here = [])
    (root : after.get? [] ≠ none) :
    after.realPath alone.companions.root = .ok [] := by
  have led : Tree.Leads after .follow Tree.maxLinks [] [] ⟨[], after.get? []⟩ :=
    .stay
  have found := (Tree.locate_ofPlace_iff (by simp)).2 ⟨by decide, led⟩
  unfold Tree.realPath
  simp only [alone, here, if_true, Tree.resolveNames, ok_bind]
  rw [Tree.stat, found, ok_bind]
  cases there : after.get? [] with
  | none => exact absurd there root
  | some entry => rfl

/-- The record's import has a source with a null character. -/
def nullSource : Text :=
  "import A from './\\0'\nconst versions=[\x7bid:'a',component:A\x7d]".toList

private theorem delete_nullSource_eq : ∃ after,
    alone.delete (aloneTree nullSource) (.ofString "a") =
      (.error .embeddedNul, after) ∧
      (aloneTree nullSource).Replaced ["index.ts".toList]
        "const versions=[]".toList after := by
  have removed : Registry.remove nullSource alone.listName (toPoints "a".toList) =
      .ok ⟨"const versions=[]".toList, ['.', '/', '\x00'], false⟩ := by
        decide +kernel
  obtain ⟨after, wrote, replaced⟩ :=
    (replaceable_alone nullSource).writeText_eq "const versions=[]".toList
  have root : after.realPath alone.companions.root = .ok [] :=
    realPath_root replaced.here (by rw [replaced.others [] (by simp)]; decide)
  have failed : alone.companions.resolve after ['.', '/', '\x00'] =
      .error .embeddedNul := by
    have parsed : (Path.ofPlace []).join (Path.parse ['.', '/', '\x00']) =
      ⟨1, [['\x00']]⟩ := by decide
    have broken : after.realPath ⟨1, [['\x00']]⟩ = .error .embeddedNul := by
      simp [Tree.realPath, Tree.resolveNames, Path.isPart, Tree.hasNul]
    unfold Companions.resolve Companions.locate
    simp only [root, ok_bind, parsed, broken]
    rfl
  refine ⟨after, ?_, replaced⟩
  rcases delete_of_wrote (asks_alone removed) wrote with
    ⟨-, bad | ⟨_, found⟩ | ⟨_, refused⟩⟩ | ⟨_, -, -, ⟨_, _, found, -⟩⟩ |
      ⟨failure, broken, -, failed', -⟩
  · simp at bad
  · simp [failed] at found
  · simp [failed] at refused
  · simp [failed] at found
  · obtain rfl : failure = .embeddedNul := by simpa [failed] using failed'.symm
    exact broken

theorem named_aloneTree (text : Text) : (aloneTree text).Named := by
  simp [Tree.Named, aloneTree]

theorem proper_alone : alone.registry.Proper := by
  unfold Path.Proper
  decide

theorem delete_atomic_nullSource :
    (aloneTree nullSource).Named ∧ alone.registry.Proper ∧
      ∃ ids removal written,
        alone.Asks (aloneTree nullSource) (.ofString "a") ids removal ∧
        (aloneTree nullSource).writeText alone.registry removal.text =
          (.ok (), written) ∧
        alone.companions.resolve written removal.source = .error .embeddedNul := by
  obtain ⟨after, answer, replaced⟩ := delete_nullSource_eq
  have outcome :=
    (delete_atomic (named_aloneTree nullSource) proper_alone (.ofString "a")).1
    .embeddedNul (by rw [answer])
  refine ⟨named_aloneTree _, proper_alone, ?_⟩
  rcases outcome with
    unchanged | ⟨ids, removal, written, asks, wrote, -, -, failed, -⟩
  · rw [answer] at unchanged
    obtain rfl : after = aloneTree nullSource := unchanged
    have old := readRegistry_alone nullSource
    rw [readRegistry_eq (replaceable_alone nullSource),
      replaced.readText_eq (replaceable_alone nullSource)] at old
    exact absurd (Except.ok.inj old) (by decide)
  · exact ⟨ids, removal, written, asks, wrote, failed⟩

/-- The deletion fails, and the registry is written all the same. -/
theorem delete_nullSource : ∃ failure after,
    alone.delete (aloneTree nullSource) (.ofString "a") = (.error failure, after) ∧
      alone.readRegistry (aloneTree nullSource) = .ok nullSource ∧
      alone.readRegistry after = .ok "const versions=[]".toList := by
  obtain ⟨after, answer, replaced⟩ := delete_nullSource_eq
  refine ⟨_, after, answer, readRegistry_alone _, ?_⟩
  rw [readRegistry_eq (replaced.replaceable (replaceable_alone nullSource))]
  exact replaced.readText_eq (replaceable_alone nullSource)

/-! ## A registry that imports itself -/

/-- The record's import names the registry. -/
def selfSource : Text :=
  "import A from './index.ts'\nconst versions=[\x7bid:'a',component:A\x7d]".toList

theorem grounded_aloneTree (text : Text) : (aloneTree text).Grounded := by
  refine ⟨named_aloneTree text, fun before ahead => ?_⟩
  obtain rfl : before = [] := by simpa [aloneTree] using ahead
  rfl

private theorem enters_root {tree : Tree}
    (root : tree.get? [] = some Tree.newDirectory) :
    tree.Enters .keep [] "index.ts".toList [] := by
  refine ⟨?_, ?_, by decide, by simp, by decide⟩
  · rw [Tree.isDirectoryAt, root]
    rfl
  · rw [Tree.permits, root]
    rfl

section OwnFile

variable {tree : Tree} {content : ByteArray} {mode : Nat}
  (root : tree.get? [] = some Tree.newDirectory)
  (there : tree.get? ["index.ts".toList] = some (.file content mode))

include root there

private theorem locate_ownFile :
    tree.locate .keep (Path.ofPlace ["index.ts".toList]) =
      .ok ⟨["index.ts".toList], some (.file content mode)⟩ := by
  have led := (enters_root root).leads
    (fun target => by rw [List.nil_append, there]; simp) Tree.maxLinks
  rw [List.nil_append, there] at led
  exact (Tree.locate_ofPlace_iff (by decide)).2 ⟨by decide, led⟩

private theorem realPath_ownFile :
    tree.realPath (Path.ofPlace ["index.ts".toList]) = .ok ["index.ts".toList] := by
  have stat :=
    Tree.stat_eq_ok_iff.2 ⟨_,
      Tree.locate_follow (locate_ownFile root there) (by simp)⟩
  have reachable : tree.isReachable ["index.ts".toList] = true := by
    simp [Tree.isReachable, Tree.permits, root, Tree.newDirectory, Entry.permits,
      Entry.mode, Right.bit]
  have visible : tree.visible? ["index.ts".toList] = some (.file content mode) := by
    rw [Tree.visible?, if_pos reachable, there]
  have names :
      tree.resolveNames (tree.entries.length + 1) [] [] ["index.ts".toList] =
        .ok (.place ["index.ts".toList] []) := by
    rw [Tree.resolveNames, if_neg (by decide), if_neg (by decide),
      if_neg (by decide)]
    simp only [List.nil_append, visible, Tree.resolveNames]
  unfold Tree.realPath
  simp only [Path.ofPlace] at names stat ⊢
  simp only [Nat.one_ne_zero, if_false, names, ok_bind, stat]
  rfl

private theorem resolve_ownFile (here : tree.here = []) :
    alone.companions.resolve tree "./index.ts".toList =
      .ok (some (Path.ofPlace ["index.ts".toList])) := by
  have isFile : tree.isFile (Path.ofPlace ["index.ts".toList]) = .ok true :=
    Tree.isFile_eq_true_iff.2 ⟨_, _, _,
      Tree.locate_follow (locate_ownFile root there) (by simp)⟩
  have joined : (Path.ofPlace []).join (Path.parse "./index.ts".toList) =
      Path.ofPlace ["index.ts".toList] := by decide
  obtain ⟨later, candidates⟩ : ∃ later,
    alone.companions.candidates ["index.ts".toList] =
      .ok (Path.ofPlace ["index.ts".toList] :: later) := ⟨_, rfl⟩
  have realRoot := realPath_root here (by simp [root])
  have inside : (([] : Place).isPrefixOf ["index.ts".toList] &&
      ["index.ts".toList] != []) = true := by
    decide
  have relative : (!"./".toList.isPrefixOf "./index.ts".toList) = false := by decide
  unfold Companions.resolve Companions.locate
  simp only [relative, realRoot, ok_bind, joined, realPath_ownFile root there,
    inside, if_true]
  change (alone.companions.candidates ["index.ts".toList] >>=
    Companions.firstFile? tree) = _
  rw [candidates, ok_bind, Companions.firstFile?, isFile]
  rfl

private theorem remove_ownFile (here : tree.here = []) :
    alone.companions.remove tree "./index.ts".toList =
      (.ok true, tree.erase ["index.ts".toList]) := by
  have ends : (Path.ofPlace ["index.ts".toList]).endsInName = true := by decide
  have changeable : tree.canChange ["index.ts".toList] = true := by
    simp [Tree.canChange, Tree.permits, root, Tree.newDirectory, Entry.permits,
      Entry.mode, Right.bit]
  simp only [Companions.remove, resolve_ownFile root there here, Tree.unlink,
    locate_ownFile root there,
    ends, changeable, Entry.isDirectory, Bool.true_eq_false, Bool.false_eq_true,
    if_false]

end OwnFile

private theorem delete_selfSource_eq : ∃ removal written,
    alone.Asks (aloneTree selfSource) (.ofString "a") (toPoints "a".toList)
      removal ∧
      (aloneTree selfSource).writeText alone.registry removal.text =
        (.ok (), written) ∧
      alone.delete (aloneTree selfSource) (.ofString "a") =
        (.ok ⟨toPoints "a".toList, true, true⟩,
          written.erase ["index.ts".toList]) := by
  have removed : Registry.remove selfSource alone.listName (toPoints "a".toList) =
      .ok ⟨"const versions=[]".toList, "./index.ts".toList, false⟩ := by
        decide +kernel
  obtain ⟨written, wrote, replaced⟩ :=
    (replaceable_alone selfSource).writeText_eq "const versions=[]".toList
  obtain ⟨content, mode, -, there⟩ := replaced.file
  have root : written.get? [] = some Tree.newDirectory := by
    rw [replaced.others [] (by simp)]
    rfl
  exact ⟨_, written, asks_alone removed, wrote,
    delete_of_removed (asks_alone removed) rfl wrote
      (remove_ownFile root there replaced.here)⟩

theorem delete_spares_selfSource :
    (aloneTree selfSource).Grounded ∧ alone.registry.Proper ∧
      ∃ deletion after removal target, ∃ gone? : Option Place,
        alone.delete (aloneTree selfSource) (.ofString "a") =
          (.ok deletion, after) ∧
        (aloneTree selfSource).locate .keep alone.registry = .ok target ∧
        deletion = ⟨toPoints "a".toList, true, gone?.isSome⟩ ∧
        (after.readText alone.registry = .ok removal ↔ target.place ∉ gone?) := by
  obtain ⟨_, _, -, -, answer⟩ := delete_selfSource_eq
  obtain ⟨ids, removal, text, written, target, gone?, -, -, -, located, deletion,
      -, -, registry, -⟩ :=
    delete_spares (grounded_aloneTree selfSource) proper_alone answer
  obtain ⟨rfl, -, -⟩ := Deletion.mk.inj deletion
  exact ⟨grounded_aloneTree _, proper_alone, _, _, removal.text, target, gone?,
    answer, located, deletion, registry⟩

/-- The deletion returns, and the registry is gone. -/
theorem delete_selfSource : ∃ deletion after,
    alone.delete (aloneTree selfSource) (.ofString "a") = (.ok deletion, after) ∧
      (aloneTree selfSource).doesExist alone.registry = .ok true ∧
      after.doesExist alone.registry = .ok false := by
  obtain ⟨removal, written, -, wrote, answer⟩ := delete_selfSource_eq
  obtain ⟨written', wrote', replaced⟩ :=
    (replaceable_alone selfSource).writeText_eq removal.text
  obtain rfl : written = written' := by simpa [wrote] using wrote'
  refine ⟨_, _, answer, (replaceable_alone selfSource).doesExist_eq, ?_⟩
  have get?_eq (other : Place) := Tree.get?_erase written other
    (by simp : ["index.ts".toList] ≠ [])
  have root : (written.erase ["index.ts".toList]).get? [] =
      some Tree.newDirectory := by
    rw [get?_eq, if_neg (by simp), replaced.others [] (by simp)]
    rfl
  have here : (written.erase ["index.ts".toList]).here = [] := replaced.here
  generalize written.erase ["index.ts".toList] = after at get?_eq root here
  have enters : after.Enters .follow [] "index.ts".toList [] := by
    refine ⟨?_, ?_, by decide, by simp, by decide⟩
    · rw [Tree.isDirectoryAt, root]
      rfl
    · rw [Tree.permits, root]
      rfl
  have absent : after.get? ([] ++ ["index.ts".toList]) = none := by
    rw [List.nil_append, get?_eq, if_pos rfl]
  have located : after.locate .follow alone.registry =
      .ok ⟨[] ++ ["index.ts".toList], none⟩ :=
    Tree.locate_eq_ok_iff.2 ⟨by decide, by decide,
      by rw [here]; exact .absent enters absent⟩
  simp only [Tree.doesExist, Tree.test, Tree.stat, located, ok_bind]

end Catalogue

end Showcase

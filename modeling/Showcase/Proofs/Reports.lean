import Mathlib
import Showcase.Proofs.Deletions
import Showcase.Proofs.Files.Contents
import Showcase.Proofs.Registry.Validity

/-!
# What a deletion reports

A deletion tells whether a file is gone.  Where it is, exactly one entry is: the
first among the path of the import and its extended forms that leads to a file.
Paths are resolved when the registry has been written.  This makes no difference
unless the registry's entry is a link, which the new file replaces
(`delete_reports`).
-/

namespace Showcase

open Files Registry

namespace Companions

variable {companions : Companions} {tree tree' : Tree} {source : Text}

/-! ## The paths that are tried -/

/-- The place of an import path, and the same with each ending added to its last
name. -/
def tried (companions : Companions) (base : Place) : List Path :=
  Path.ofPlace base :: companions.extensions.map fun ending =>
    Path.ofPlace (base.dropLast ++ [base.getLast?.getD [] ++ ending])

private theorem candidates_eq {base : Place} {paths : List Path}
    (h : companions.candidates base = .ok paths) :
    paths = companions.tried base := by
  obtain ⟨extended, made, rest⟩ := bind_eq_ok_iff.1 h
  cases rest
  refine congrArg (Path.ofPlace base :: ·)
    (eq_map_of_mapM made fun ending path named => ?_)
  unfold Path.withName? at named
  dsimp only at named
  split at named
  next extended same =>
    cases named
    split at same
    · simp at same
    · cases same
      rfl
  next => simp at named

private theorem firstFile?_eq_none {paths : List Path}
    (h : firstFile? tree paths = .ok none) :
    ∀ path ∈ paths, tree.isFile path = .ok false := by
  induction paths with
  | nil => simp
  | cons first paths ih =>
      unfold firstFile? at h
      obtain ⟨isFile, tested, rest⟩ := bind_eq_ok_iff.1 h
      cases isFile with
      | true => cases rest
      | false =>
          intro path mem
          rcases List.mem_cons.1 mem with rfl | mem
          · exact tested
          · exact ih rest path mem

private theorem firstFile?_eq_some {paths : List Path} {path : Path}
    (h : firstFile? tree paths = .ok (some path)) :
    ∃ earlier later, paths = earlier ++ path :: later ∧
      (∀ other ∈ earlier, tree.isFile other = .ok false) ∧
      tree.isFile path = .ok true := by
  induction paths with
  | nil => simp [firstFile?] at h
  | cons first paths ih =>
      unfold firstFile? at h
      obtain ⟨isFile, tested, rest⟩ := bind_eq_ok_iff.1 h
      cases isFile with
      | true =>
          cases rest
          exact ⟨[], paths, rfl, by simp, tested⟩
      | false =>
          obtain ⟨earlier, later, rfl, before, there⟩ := ih rest
          refine ⟨first :: earlier, later, rfl, fun other mem => ?_, there⟩
          rcases List.mem_cons.1 mem with rfl | mem
          · exact tested
          · exact before other mem

private theorem refused_of_locate {why : Refusal}
    (h : companions.locate tree source = .error (.refused why)) :
    "./".toList.isPrefixOf source = false ∨
      ∃ root base, tree.realPath companions.root = .ok root ∧
        tree.realPath ((Path.ofPlace root).join (Path.parse source)) = .ok base ∧
        (base = root ∨ ¬root <+: base) := by
  have known {path : Path} : tree.realPath path ≠ .error (.refused why) := by
    intro failed
    rcases Tree.realPath_error failed with bad | bad <;> simp at bad
  unfold locate at h
  split at h
  next other => exact .inl (by simpa using other)
  next =>
    rcases bind_eq_error_iff.1 h with failed | ⟨root, resolved, h⟩
    · exact absurd failed known
    rcases bind_eq_error_iff.1 h with failed | ⟨base, resolved', h⟩
    · exact absurd failed known
    split at h
    next => simp [pure, Except.pure] at h
    next outside =>
      refine .inr ⟨root, base, resolved, resolved', ?_⟩
      rw [Bool.and_eq_true, List.isPrefixOf_iff_prefix, bne_iff_ne, not_and_or,
        not_not] at outside
      exact outside.symm

private theorem locate_of_refused {why : Refusal}
    (h : companions.resolve tree source = .error (.refused why)) :
    companions.locate tree source = .error (.refused why) := by
  rcases bind_eq_error_iff.1 h with failed | ⟨base, -, h⟩
  · exact failed
  rcases bind_eq_error_iff.1 h with failed | ⟨paths, -, failed⟩
  · rcases bind_eq_error_iff.1 failed with failed | ⟨extended, -, failed⟩
    · obtain ⟨ending, -, failed⟩ := exists_of_mapM_error failed
      split at failed
      · simp at failed
      · simp at failed
    · simp [pure, Except.pure] at failed
  · have := firstFile?_error failed
    simp [searchFailures] at this

/-! ## Trees that differ in what files hold -/

private theorem locate_sameForm (same : tree.SameForm tree') :
    companions.locate tree' source = companions.locate tree source := by
  unfold locate
  simp only [same.realPath_eq]

private theorem resolve_sameForm (same : tree.SameForm tree') :
    companions.resolve tree' source = companions.resolve tree source := by
  have first (paths : List Path) : firstFile? tree' paths =
      firstFile? tree paths := by
    induction paths with
    | nil => rfl
    | cons path paths ih =>
        unfold firstFile?
        rw [same.isFile_eq, ih]
  unfold resolve
  simp only [locate_sameForm same, first]

/-- Whether an import path denotes no companion: it is refused, no path that is
tried leads to a file, or the file that is found cannot be removed. -/
def Keeps (companions : Companions) (tree : Tree) (source : Text) : Prop :=
  "./".toList.isPrefixOf source = false ∨
    (∃ root base, tree.realPath companions.root = .ok root ∧
      tree.realPath ((Path.ofPlace root).join (Path.parse source)) = .ok base ∧
      (base = root ∨ ¬root <+: base)) ∨
    (∃ base, companions.locate tree source = .ok base ∧
      ∀ path ∈ companions.tried base, tree.isFile path = .ok false) ∨
    ∃ path failure, companions.resolve tree source = .ok (some path) ∧
      (tree.unlink path).1 = .error failure

/-- Whether this entry is the first among the paths tried that leads to a file. -/
def Finds (companions : Companions) (tree : Tree) (source : Text)
    (place : Place) (entry : Files.Entry) :
    Prop :=
  ∃ base earlier path later, companions.locate tree source = .ok base ∧
    companions.tried base = earlier ++ path :: later ∧
    (∀ other ∈ earlier, tree.isFile other = .ok false) ∧
    tree.isFile path = .ok true ∧
    tree.locate .keep path = .ok ⟨place, some entry⟩

theorem Finds.get?_eq {place : Place} {entry : Files.Entry}
    (h : companions.Finds tree source place entry) :
    tree.get? place = some entry := by
  obtain ⟨_, _, _, _, -, -, -, -, there⟩ := h
  exact (Tree.locate_found? there).symm

private theorem keeps_of_remove {after : Tree}
    (h : companions.remove tree source = (.ok false, after)) :
    companions.Keeps tree source := by
  unfold remove at h
  cases resolved : companions.resolve tree source with
  | error failure => simp [resolved] at h
  | ok path? =>
      cases path? with
      | none =>
          obtain ⟨base, located, rest⟩ := bind_eq_ok_iff.1 resolved
          obtain ⟨paths, made, none'⟩ := bind_eq_ok_iff.1 rest
          obtain rfl := candidates_eq made
          exact .inr (.inr (.inl ⟨base, located, firstFile?_eq_none none'⟩))
      | some path =>
          rw [resolved] at h
          dsimp only at h
          rcases tree.unlink_cases path with ⟨failure, unlinked⟩ |
            ⟨place, entry, -, -, unlinked⟩
          · exact .inr (.inr (.inr ⟨path, failure, resolved, by rw [unlinked]⟩))
          · simp [unlinked] at h

private theorem keeps_of_refused {why : Refusal}
    (h : companions.resolve tree source = .error (.refused why)) :
    companions.Keeps tree source := by
  rcases refused_of_locate (locate_of_refused h) with other | outside
  · exact .inl other
  · exact .inr (.inl outside)

private theorem Removes.exists_finds {place : Place}
    (removes : companions.Removes tree source place) :
    ∃ entry, companions.Finds tree source place entry := by
  obtain ⟨path, entry, resolved, there, -⟩ := removes.found
  obtain ⟨base, located, rest⟩ := bind_eq_ok_iff.1 resolved
  obtain ⟨paths, made, first⟩ := bind_eq_ok_iff.1 rest
  obtain rfl := candidates_eq made
  obtain ⟨earlier, later, split, before, isFile⟩ := firstFile?_eq_some first
  exact ⟨entry, base, earlier, path, later, located, split, before, isFile, there⟩

private theorem Keeps.sameForm (h : companions.Keeps tree source)
    (same : tree.SameForm tree') :
    companions.Keeps tree' source := by
  unfold Keeps at h ⊢
  simpa only [same.realPath_eq, locate_sameForm same, same.isFile_eq,
    resolve_sameForm same, same.unlink_fst_eq] using h

private theorem Finds.sameForm {place : Place} {entry : Files.Entry}
    (h : companions.Finds tree source place entry) (same : tree.SameForm tree') :
    ∃ entry', companions.Finds tree' source place entry' := by
  obtain ⟨base, earlier, path, later, located, split, before, isFile, there⟩ := h
  rcases same.locate_cases .keep path with ⟨failure, failed, -⟩ |
    ⟨place', found?, found?', there', there'', form⟩
  · simp [there] at failed
  obtain ⟨rfl, rfl⟩ : place = place' ∧ some entry = found? := by
    simpa [there] using there'
  obtain ⟨entry', rfl, -⟩ := Option.map_eq_some_iff.1 form
  refine ⟨entry', base, earlier, path, later, ?_, split, fun other mem => ?_, ?_,
    there''⟩
  · rw [locate_sameForm same, located]
  · rw [same.isFile_eq, before other mem]
  · rw [same.isFile_eq, isFile]

end Companions

/-! ## Deletions -/

namespace Catalogue

variable {catalogue : Catalogue} {tree : Tree} {id : Json}

/-- What a deletion of a record says and does, apart from the entry at
`registry`, with paths resolved in the tree `seen`. -/
structure Reports (companions : Companions) (registry : Place) (doc : Document)
    (record : Record) (source : Text) (tree seen after : Tree)
    (fileRemoved : Bool) : Prop where
  removed : fileRemoved = true →
    (∀ other ∈ doc.records, other.span ≠ record.span →
      other.value? "component".toList ≠ record.value? "component".toList) ∧
    ∃ place entry, companions.Finds seen source place entry ∧
      (place ≠ registry → tree.get? place = some entry) ∧ after.get? place = none ∧
      ∀ other, other ≠ registry → other ≠ place → after.get? other = tree.get? other
  kept : fileRemoved = false →
    (∀ other, other ≠ registry → after.get? other = tree.get? other) ∧
    ((∃ other ∈ doc.records, other.span ≠ record.span ∧
      other.value? "component".toList = record.value? "component".toList) ∨
      companions.Keeps seen source)

private theorem removeCompanion_of_deleted {ids : List CodePoint}
    {removal : Removal} {written after : Tree} {deletion : Deletion}
    (asks : catalogue.Asks tree id ids removal)
    (wrote : tree.writeText catalogue.registry removal.text = (.ok (), written))
    (deleted : catalogue.delete tree id = (.ok deletion, after)) :
    catalogue.removeCompanion written removal =
      (.ok deletion.fileRemoved, after) := by
  rw [delete_eq_of_asks asks, wrote] at deleted
  dsimp only at deleted
  obtain ⟨answer, rfl⟩ := Prod.mk.inj deleted
  obtain ⟨fileRemoved, removed, rfl⟩ := map_eq_ok_iff.1 answer
  rw [← removed]

private theorem keeps_of_removeCompanion {removal : Removal} {after : Tree}
    (h : catalogue.removeCompanion tree removal = (.ok false, after)) :
    removal.shared = true ∨ catalogue.companions.Keeps tree removal.source := by
  unfold removeCompanion at h
  split at h
  next shared => exact .inl shared
  next =>
    split at h
    next why _ removed =>
      rcases catalogue.companions.remove_cases tree removal.source with
        ⟨failure, failed, removed'⟩ | ⟨_, -, removed'⟩ | ⟨_, -, removed'⟩
      · obtain ⟨rfl, -⟩ : failure = .refused why ∧ tree = _ := by
          simpa [removed'] using removed
        exact .inr (Companions.keeps_of_refused failed)
      · simp [removed'] at removed
      · simp [removed'] at removed
    next => exact .inr (Companions.keeps_of_remove h)

/-- A registry that is no link is written where it is, and then every path leads
where it led before. -/
private theorem sameForm_of_wrote {text new : Text} {written : Tree}
    {target : Tree.Spot} (named : tree.Named)
    (proper : catalogue.registry.Proper)
    (read : catalogue.readRegistry tree = .ok text)
    (wrote : tree.writeText catalogue.registry new = (.ok (), written))
    (kept : tree.locate .keep catalogue.registry = .ok target)
    (noLink : ∀ link, target.found? ≠ some (.link link)) :
    tree.SameForm written := by
  obtain ⟨place, content, mode, followed, -, -⟩ :=
    Tree.exists_of_readText (readText_of_readRegistry read)
  obtain rfl : target = ⟨place, some (.file content mode)⟩ :=
    Except.ok.inj ((Tree.locate_follow kept noLink).symm.trans followed)
  obtain ⟨target', kept', puts⟩ :=
    Tree.exists_puts_of_wrote named proper
    (Tree.stat_eq_ok_iff.2 ⟨place, followed⟩) wrote
  obtain rfl := Except.ok.inj (kept.symm.trans kept')
  exact .of_puts (Tree.locate_found? followed).symm puts

private theorem Reports.sameForm {companions : Companions} {registry : Place}
    {doc : Document} {record : Record} {source : Text} {seen after : Tree}
    {fileRemoved : Bool}
    (h : Reports companions registry doc record source tree seen after fileRemoved)
    (same : seen.SameForm tree) :
    Reports companions registry doc record source tree tree after fileRemoved := by
  constructor
  · intro removed
    obtain ⟨alone, place, entry, finds, -, gone, others⟩ := h.removed removed
    obtain ⟨entry', finds'⟩ := finds.sameForm same
    exact ⟨alone, place, entry', finds', fun _ => finds'.get?_eq, gone, others⟩
  · intro kept
    obtain ⟨others, why⟩ := h.kept kept
    exact ⟨others, why.imp_right (·.sameForm same)⟩

/-- A deletion that returns tells whether a file is gone, and which file this
is.  The paths are those of the tree with the new registry; they lead where they
led before unless the registry is a link. -/
theorem delete_reports (grounded : tree.Grounded)
    (proper : catalogue.registry.Proper) {deletion : Deletion} {after : Tree}
    (deleted : catalogue.delete tree id = (.ok deletion, after)) :
    ∃ ids text removal written target doc record statement,
      checkId id = .ok ids ∧ catalogue.readRegistry tree = .ok text ∧
      Registry.remove text catalogue.listName ids = .ok removal ∧
      tree.writeText catalogue.registry removal.text = (.ok (), written) ∧
      tree.locate .keep catalogue.registry = .ok target ∧
      scan text catalogue.listName = .ok doc ∧
      doc.recordOf ids = .ok record ∧ doc.companionImport? record = some statement ∧
      Reports catalogue.companions target.place doc record statement.source
        tree written after deletion.fileRemoved ∧
      ((∀ link, target.found? ≠ some (.link link)) →
        Reports catalogue.companions target.place doc record statement.source
          tree tree after deletion.fileRemoved) := by
  obtain ⟨ids, removal, written, target, mode, gone?, asks, wrote, kept, -, puts,
      -, -, rfl, outcome⟩ :=
    exists_of_deleted grounded proper deleted
  obtain ⟨text, read, removed⟩ := asks.edit
  obtain ⟨doc, id', record, statement, scanned, isId, found, companion, -,
      source, shared⟩ :=
    exists_of_remove removed
  have elsewhere (other : Place) (differs : other ≠ target.place) :
      written.get? other = tree.get? other := by rw [puts.get?_eq, if_neg differs]
  have reports : Reports catalogue.companions target.place doc record
      statement.source tree written after
      gone?.isSome := by
    rw [isShared] at shared
    rw [← source]
    rcases outcome with ⟨rfl, rfl⟩ | ⟨place, rfl, more, -, rfl, alone, removes⟩
    · refine ⟨by simp, fun _ => ⟨elsewhere, ?_⟩⟩
      have phase := removeCompanion_of_deleted asks wrote deleted
      refine (keeps_of_removeCompanion phase).imp_left fun isShared => ?_
      simpa [isShared] using shared.symm
    · refine ⟨fun _ => ⟨?_, ?_⟩, by simp⟩
      · rw [alone, eq_comm, List.any_eq_false] at shared
        simpa using shared
      · obtain ⟨entry, finds⟩ := removes.exists_finds
        refine ⟨place, entry, finds, fun differs => ?_, ?_,
          fun other differs differs' => ?_⟩
        · rw [← elsewhere place differs, finds.get?_eq]
        · rw [Tree.get?_erase _ _ more, if_pos rfl]
        · rw [Tree.get?_erase _ _ more, if_neg differs', elsewhere other differs]
  refine ⟨ids, text, removal, written, target, doc, record, statement,
    asks.accepted, read, removed, wrote,
    kept, scanned, recordOf_eq_ok_iff.2 ⟨id', isId, found⟩, companion, reports,
    fun noLink => ?_⟩
  exact reports.sameForm (sameForm_of_wrote grounded.named proper read wrote
    kept noLink).symm

/-! ## A registry behind a link -/

/-- The record's import leads through the registry. -/
def throughSource : Text := "./index.ts/../f".toList

def throughText : Text :=
  "import A from './index.ts/../f'\nconst versions=[\x7bid:'a',component:A\x7d]".toList

def throughRest : Text := "const versions=[]".toList

/-- Two directories with a file `f`, and an entry for the registry. -/
def forkTree (registry : Files.Entry) : Tree :=
  ⟨[(["index.ts".toList], registry), ([['f']], .file ByteArray.empty 0o644),
    ([['d']], Tree.newDirectory), ([['d'], ['f']], .file ByteArray.empty 0o644),
    ([['d'], ['r']], .file (Utf8.encode throughText) 0o644)], []⟩

private theorem grounded_forkTree (registry : Files.Entry) :
    (forkTree registry).Grounded := by
  refine ⟨by simp [Tree.Named, forkTree], fun before start => ?_⟩
  obtain rfl := List.prefix_nil.1 start
  rfl

/-- Once the registry is a file, the import leads to the `f` beside it. -/
private theorem delete_forkTree {registry : Files.Entry}
    (stat : (forkTree registry).stat alone.registry =
      .ok (.file (Utf8.encode throughText) 0o644))
    (wrote : (forkTree registry).writeText alone.registry throughRest =
      (.ok (), forkTree (.file (Utf8.encode throughRest) 0o644))) :
    alone.delete (forkTree registry) (.ofString "a") =
      (.ok ⟨toPoints "a".toList, true, true⟩,
        (forkTree (.file (Utf8.encode throughRest) 0o644)).erase [['f']]) := by
  have readable := Files.Entry.permits_read_file (Utf8.encode throughText)
  have read : alone.readRegistry (forkTree registry) = .ok throughText := by
    simp only [readRegistry, Tree.doesExist, Tree.test, Tree.readText,
      Tree.readFile, stat, ok_bind,
      readable, if_true, Bool.true_eq_false, if_false, pure, Except.pure,
      Utf8.decode?_encode]
  have edit : Registry.remove throughText alone.listName (toPoints "a".toList) =
      .ok ⟨throughRest, throughSource, false⟩ := by decide +kernel
  have removed :
      alone.companions.remove (forkTree (.file (Utf8.encode throughRest) 0o644))
      throughSource = (.ok true,
        (forkTree (.file (Utf8.encode throughRest) 0o644)).erase [['f']]) := by
    cbv
  exact delete_of_removed ⟨by decide, throughText, read, edit⟩ rfl wrote removed

theorem delete_reports_forkTree : ∃ registry : Files.Entry,
    (forkTree registry).Grounded ∧ alone.registry.Proper ∧ ∃ deletion after,
      alone.delete (forkTree registry) (.ofString "a") = (.ok deletion, after) ∧
      deletion.fileRemoved = true ∧ ∃ doc record, ∃ statement : Import,
        Reports alone.companions ["index.ts".toList] doc record statement.source
          (forkTree registry)
          (forkTree registry) after deletion.fileRemoved := by
  have located : (forkTree (.file (Utf8.encode throughText) 0o644)).locate .keep
      alone.registry =
        .ok ⟨["index.ts".toList], some (.file (Utf8.encode throughText) 0o644)⟩ := by
        cbv
  have deleted := delete_forkTree
    (Tree.stat_eq_ok_iff.2 ⟨_, Tree.locate_follow located (by simp)⟩) (by cbv)
  obtain ⟨_, _, _, _, target, doc, record, statement, -, -, -, -, kept, -, -, -,
      -, reports⟩ :=
    delete_reports (grounded_forkTree _) proper_alone deleted
  obtain rfl : _ = target := Except.ok.inj (located.symm.trans kept)
  exact ⟨_, grounded_forkTree _, proper_alone, _, _, deleted, rfl, doc,
    record, statement, reports (by simp)⟩

/-- The import leads to the one file before the deletion, and the other file
goes. -/
theorem delete_linkedRegistry : ∃ deletion after,
    alone.delete (forkTree (.link "d/r".toList)) (.ofString "a") =
      (.ok deletion, after) ∧
      deletion.fileRemoved = true ∧
      alone.companions.resolve (forkTree (.link "d/r".toList)) throughSource =
        .ok (some (Path.ofPlace [['d'], ['f']])) ∧
      (forkTree (.link "d/r".toList)).realPath alone.registry = .ok [['d'], ['r']] ∧
      after.get? [['d'], ['f']] =
        (forkTree (.link "d/r".toList)).get? [['d'], ['f']] ∧
      (forkTree (.link "d/r".toList)).get? [['f']] =
        some (.file ByteArray.empty 0o644) ∧
      after.get? [['f']] = none := by
  have stat : (forkTree (.link "d/r".toList)).stat alone.registry =
      .ok (.file (Utf8.encode throughText) 0o644) := by cbv
  have deleted := delete_forkTree stat (by cbv)
  refine ⟨_, _, deleted, rfl, by cbv, by cbv, ?_, by cbv, ?_⟩
  · rw [Tree.get?_erase _ _ (by simp), if_neg (by decide)]
    cbv
  · rw [Tree.get?_erase _ _ (by simp), if_pos rfl]

end Catalogue

end Showcase

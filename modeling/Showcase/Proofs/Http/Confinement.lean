import Mathlib
import Showcase.Http.Api
import Showcase.Proofs.Deletions
import Showcase.Proofs.Files.Directories

/-!
# What requests can change

Whatever calls are answered, with whatever ids and bodies, and whatever links
there are, nothing changes but the registry, the notes with the directories
above them, a temporary file for the notes, and the companions that are removed.
A companion lies strictly inside the directory of versions, unless its import
leads through a link that leads back to itself (`Api.run_confined`).
-/

namespace Showcase.Http.Api

open Files Catalogue

/-- The tree in which the notes are written, with the directories above them. -/
def prepared (api : Api) (tree : Tree) : Tree :=
  (tree.makeDirectories api.notes.parent).2

/-- A place that one call may change. -/
inductive Touched (api : Api) (tree after : Tree) (place : Place) : Prop where
  | registry {found? : Option Entry}
      (leads : tree.locate .keep api.catalogue.registry = .ok ⟨place, found?⟩)
  | notes {found? : Option Entry}
      (leads : (api.prepared tree).locate .keep api.notes = .ok ⟨place, found?⟩)
  | temporary (beside : (api.prepared tree).Beside api.notes place)
      (empty : after.get? place = some (.file ByteArray.empty 0o600))
  | directory {depth : Nat} (above : depth ≤ api.notes.parent.parts.length)
      (absent : tree.get? place = none)
      (leads : (api.prepared tree).locate .follow
        ⟨api.notes.slashes, api.notes.parent.parts.take depth⟩ =
          .ok ⟨place, some Tree.newDirectory⟩)
  | companion {id : Json} {ids : List CodePoint} {removal : Registry.Removal}
      {written : Tree}
      {entry : Entry} {root : Place} (asks : api.catalogue.Asks tree id ids removal)
      (wrote : tree.writeText api.catalogue.registry removal.text =
        (.ok (), written))
      (there : written.get? place = some entry) (notDirectory :
        entry.isDirectory = false)
      (gone : after.get? place = none)
      (resolved : written.realPath api.catalogue.companions.root = .ok root)
      (inside :
        written.Loops ((Path.ofPlace root).join (Path.parse removal.source)) ∨
        root <+: place ∧ place ≠ root)

/-- Only places that a call may change differ, and no directory does. -/
structure Confined (api : Api) (tree after : Tree) : Prop where
  here : after.here = tree.here
  places : ∀ place, after.get? place = tree.get? place ∨
    tree.isDirectoryAt place = false ∧ api.Touched tree after place

variable {api : Api} {tree after : Tree}

theorem Confined.refl (api : Api) (tree : Tree) : api.Confined tree tree :=
  ⟨rfl, fun _ => .inl rfl⟩

theorem Confined.grounded (h : api.Confined tree after) (grounded : tree.Grounded) :
    after.Grounded := by
  refine ⟨?_, fun before start => ?_⟩
  · unfold Tree.Named
    rw [h.here]
    exact grounded.named
  · rw [h.here] at start
    have directory := grounded.directories before start
    rcases h.places before with same | ⟨notDirectory, -⟩
    · rw [Tree.isDirectoryAt, same]
      exact directory
    · simp [directory] at notDirectory

/-! ## The registry -/

/-- A write changes the entry that its path leads to, and no directory. -/
private theorem places_of_writeText {path : Path} (named : tree.Named)
    (proper : path.Proper) (text : Text) :
    (tree.writeText path text).2.here = tree.here ∧
      ∀ place, (tree.writeText path text).2.get? place = tree.get? place ∨
        tree.isDirectoryAt place = false ∧ ∃ found?, tree.locate .keep path =
          .ok ⟨place, found?⟩ := by
  rcases Tree.writeText_cases named proper text with
    ⟨failure, failed⟩ | ⟨mode, target, after, leads, notDirectory, -, wrote, puts⟩
  · rw [failed]
    exact ⟨rfl, fun _ => .inl rfl⟩
  · rw [wrote]
    refine ⟨puts.here, fun place => ?_⟩
    rw [puts.get?_eq]
    split
    next same =>
      subst same
      exact .inr ⟨Tree.isDirectoryAt_of_target leads notDirectory,
        target.found?, leads⟩
    next => exact .inl rfl

private theorem writeText_confined (named : tree.Named)
    (proper : api.catalogue.registry.Proper) (text : Text) :
    api.Confined tree (tree.writeText api.catalogue.registry text).2 := by
  obtain ⟨here, places⟩ := places_of_writeText named proper text
  exact ⟨here, fun place => (places place).imp id fun ⟨notDirectory,
    found?, leads⟩ =>
    ⟨notDirectory, .registry leads⟩⟩

private theorem setField_confined (named : tree.Named)
    (proper : api.catalogue.registry.Proper) (id : List CodePoint)
    (field : Text) (value : List CodePoint) :
    api.Confined tree (api.catalogue.setField tree id field value).2 := by
  unfold setField
  dsimp only
  split
  · exact .refl api tree
  · exact .refl api tree
  next points edit =>
    obtain ⟨text, -, made⟩ := bind_eq_ok_iff.1 edit
    obtain ⟨new, rfl⟩ := Registry.exists_of_setField made
    exact writeText_confined named proper new

private theorem delete_confined (grounded : tree.Grounded)
    (proper : api.catalogue.registry.Proper)
    (proper' : api.catalogue.companions.root.Proper) (id : Json) :
    api.Confined tree (api.catalogue.delete tree id).2 := by
  rcases delete_unchanged_or_wrote grounded.named proper id with
    ⟨failure, failed⟩ | ⟨ids, removal, written, asks, wrote⟩
  · rw [failed]
    exact .refl api tree
  have confined : api.Confined tree written := by
    have kept :
        api.Confined tree (tree.writeText api.catalogue.registry removal.text).2 :=
      writeText_confined grounded.named proper removal.text
    rwa [wrote] at kept
  rcases delete_of_wrote asks wrote with
    ⟨deleted, -⟩ | ⟨gone, deleted, -, removes⟩ | ⟨failure, deleted, -⟩
  · rwa [deleted]
  · rw [deleted]
    obtain ⟨root, resolved, inside⟩ :=
      removes.inside (confined.grounded grounded) proper'
    obtain ⟨path, entry, -, located, notDirectory⟩ := removes.found
    have there : written.get? gone = some entry := (Tree.locate_found? located).symm
    have root' : gone ≠ [] := by
      rintro rfl
      have directory := (confined.grounded grounded).directories [] List.nil_prefix
      simp [Tree.isDirectoryAt, there, notDirectory] at directory
    refine ⟨confined.here, fun place => ?_⟩
    rw [Tree.get?_erase _ _ root']
    split
    next same =>
      subst same
      refine .inr ⟨?_, .companion asks wrote there notDirectory ?_ resolved inside⟩
      · rcases confined.places place with same | ⟨notDirectory', -⟩
        · simpa [Tree.isDirectoryAt, ← same, there] using notDirectory
        · exact notDirectory'
      · rw [Tree.get?_erase _ _ root', if_pos rfl]
    next =>
      obtain ⟨-, places⟩ := places_of_writeText grounded.named proper removal.text
      rw [wrote] at places
      refine (places place).imp (fun same => same) fun written' => ?_
      obtain ⟨notDirectory, found?, leads⟩ := written'
      exact ⟨notDirectory, .registry leads⟩
  · rwa [deleted]

private theorem reclassify_confined (named : tree.Named)
    (proper : api.catalogue.registry.Proper) (id type : Json) :
    api.Confined tree (api.catalogue.reclassify tree id type).2 := by
  unfold reclassify
  dsimp only
  split
  · exact .refl api tree
  · exact setField_confined named proper _ _ _

private theorem rename_confined (named : tree.Named)
    (proper : api.catalogue.registry.Proper) (id title : Json) :
    api.Confined tree (api.catalogue.rename tree id title).2 := by
  unfold rename
  dsimp only
  split
  · exact .refl api tree
  · exact setField_confined named proper _ _ _

/-! ## The notes -/

theorem replace_cases (api : Api) (tree : Tree) (mapping : Json) :
    (Notes.replace tree api.notes mapping).2 = tree ∨
      (Notes.replace tree api.notes mapping).2 = api.prepared tree ∨
      (Notes.replace tree api.notes mapping).2 =
        ((api.prepared tree).writeAtomic api.notes mapping.indented).2 := by
  unfold Notes.replace prepared
  split
  · exact .inl rfl
  split
  next made => exact .inr (.inl (by rw [made]))
  next made => exact .inr (.inl (by rw [made]))
  next made =>
    split
    · exact .inr (.inr (by rw [made]))
    · exact .inr (.inl (by rw [made]))

private theorem replace_confined (grounded : tree.Grounded)
    (proper : api.notes.Proper) (mapping : Json) :
    api.Confined tree (Notes.replace tree api.notes mapping).2 := by
  have grows := tree.makeDirectories_grows api.notes.parent
  have absent {place : Place} (h : tree.get? place = none) :
      tree.isDirectoryAt place = false := by
    rw [Tree.isDirectoryAt, h]
  have made (after : Tree) (place : Place)
      (same : after.get? place = (api.prepared tree).get? place) :
      after.get? place = tree.get? place ∨
        tree.isDirectoryAt place = false ∧ api.Touched tree after place := by
    rw [same]
    refine (grows.created place).imp id fun grown => ?_
    obtain ⟨unused, depth, above, leads⟩ := grown
    exact ⟨absent unused, .directory above unused leads⟩
  have prepared : api.Confined tree (api.prepared tree) :=
    ⟨grows.here, fun place => made _ place rfl⟩
  -- What is no directory once the directories are made was none before.
  have before {place : Place}
      (h : (api.prepared tree).isDirectoryAt place = false) :
      tree.isDirectoryAt place = false := by
    rw [Bool.eq_false_iff] at h ⊢
    exact fun directory => h (grows.within.isDirectoryAt directory)
  rcases api.replace_cases tree mapping with same | same | same
  · rw [same]
    exact .refl api tree
  · rw [same]
    exact prepared
  rw [same]
  rcases Tree.writeAtomic_cases (prepared.grounded grounded).named proper
    mapping.indented with
    ⟨failure, failed⟩ | ⟨temp, -, beside, failed⟩ |
      ⟨text, mode, target, after, -, leads, notDirectory, -, wrote, puts⟩
  · rw [failed]
    exact prepared
  · rw [failed]
    refine ⟨prepared.here, fun place => ?_⟩
    by_cases here : place = temp
    · subst here
      have empty :
          ((api.prepared tree).set place (.file ByteArray.empty 0o600)).get? place =
            some (.file ByteArray.empty 0o600) := by rw [Tree.get?_set, if_pos rfl]
      refine .inr ⟨before ?_, .temporary beside empty⟩
      rw [Tree.isDirectoryAt, beside.unused]
    · exact made _ place (by rw [Tree.get?_set, if_neg here])
  · rw [wrote]
    refine ⟨puts.here.trans prepared.here, fun place => ?_⟩
    by_cases here : place = target.place
    · subst here
      exact .inr ⟨before (Tree.isDirectoryAt_of_target leads notDirectory),
        .notes leads⟩
    · exact made _ place (by rw [puts.get?_eq, if_neg here])

/-! ## Calls -/

/-- The paths of the settings, as they are read. -/
structure Proper (api : Api) : Prop where
  registry : api.catalogue.registry.Proper
  root : api.catalogue.companions.root.Proper
  notes : api.notes.Proper

private theorem ofOutcome_snd {α : Type} (fallback : Text) (outcome : Outcome α)
    (ok : α → Reply) : (Reply.ofOutcome fallback outcome ok).2 = outcome.2 := by
  unfold Reply.ofOutcome
  split <;> rfl

private theorem withObject_confined {body : Body} {answer : Json → Outcome Reply}
    (h : ∀ payload, api.Confined tree (answer payload).2) :
    api.Confined tree (withObject tree body answer).2 := by
  unfold withObject
  split
  · exact h _
  · exact .refl api tree
  · exact .refl api tree
  · exact .refl api tree

private theorem answer_confined (proper : api.Proper) (grounded : tree.Grounded)
    (call : Call) :
    api.Confined tree (api.answer tree call).2 := by
  cases call with
  | getNotes =>
      rw [answer, getNotes, ofOutcome_snd]
      exact .refl api tree
  | postNotes body =>
      refine withObject_confined fun payload => ?_
      rw [postNotes, ofOutcome_snd]
      exact replace_confined grounded proper.notes payload
  | getVersions =>
      rw [answer, getVersions, ofOutcome_snd]
      exact .refl api tree
  | postType id body =>
      refine withObject_confined fun payload => ?_
      rw [postType, ofOutcome_snd]
      exact reclassify_confined grounded.named proper.registry _ _
  | postTitle id body =>
      refine withObject_confined fun payload => ?_
      rw [postTitle, ofOutcome_snd]
      exact rename_confined grounded.named proper.registry _ _
  | deleteVersion id =>
      rw [answer, deleteVersion, ofOutcome_snd]
      exact delete_confined grounded proper.registry proper.root _

/-! ## Runs -/

def run (api : Api) (tree : Tree) : List Call → Tree
  | [] => tree
  | call :: calls => api.run (api.answer tree call).2 calls

/-- A place that differs after some calls is one that a call among them could
change. -/
theorem run_confined (proper : api.Proper) (grounded : tree.Grounded)
    (calls : List Call) (place : Place) :
    (api.run tree calls).get? place = tree.get? place ∨
      ∃ before call after, calls = before ++ call :: after ∧
        api.Touched (api.run tree before) (api.run tree (before ++ [call]))
          place := by
  induction calls generalizing tree with
  | nil => exact .inl rfl
  | cons call calls ih =>
      have step := answer_confined proper grounded call
      rcases ih (step.grounded grounded) with
        same | ⟨before, call', after, rfl, touched⟩
      · refine (step.places place).imp (same.trans ·) fun ⟨_, touched⟩ => ?_
        exact ⟨[], call, calls, rfl, touched⟩
      · exact .inr ⟨call :: before, call', after, rfl, touched⟩

/-! ## A link that leads back to itself -/

def stray : Catalogue :=
  ⟨⟨0, ["versions".toList, "index.ts".toList]⟩, Registry.defaultListName,
    ⟨⟨0, ["versions".toList]⟩, Companions.defaultExtensions⟩⟩

def strayApi : Api := ⟨stray, ⟨0, ["versions".toList, "notes.json".toList]⟩⟩

/-- The path leads through the link `loop` to itself, and through the link `x`
to `out`. -/
def straySource : Text := "./loop/../x/y".toList

def strayText : Text :=
  "import A from './loop/../x/y'\nconst versions=[\x7bid:'a',component:A\x7d]".toList

def strayRest : Text := "const versions=[]".toList

def strayFile : Place := ["out".toList, ['y']]

def strayTree (text : Text) : Tree :=
  ⟨[(["versions".toList, "index.ts".toList], .file (Utf8.encode text) 0o644),
    (["versions".toList], Tree.newDirectory),
    (["versions".toList, "loop".toList], .link "loop".toList),
    (["versions".toList, ['x']], .link "../out".toList),
    (["out".toList], Tree.newDirectory),
    (strayFile, .file ByteArray.empty 0o644)], []⟩

def strayCall : Call := .deleteVersion (toPoints ['a'])

private theorem readRegistry_stray (text : Text) :
    stray.readRegistry (strayTree text) = .ok text := by
  have stat : (strayTree text).stat stray.registry =
    .ok (.file (Utf8.encode text) 0o644) := by cbv
  have readable := Files.Entry.permits_read_file (Utf8.encode text)
  simp only [readRegistry, Tree.doesExist, Tree.test, Tree.readText,
    Tree.readFile, stat, ok_bind,
    readable, if_true, Bool.true_eq_false, if_false, pure, Except.pure,
    Utf8.decode?_encode]

private theorem answer_strayCall :
    (strayApi.answer (strayTree strayText) strayCall).2 =
      (strayTree strayRest).erase strayFile := by
  have read : stray.readRegistry (strayTree strayText) = .ok strayText :=
    readRegistry_stray strayText
  have edit : Registry.remove strayText stray.listName (toPoints ['a']) =
      .ok ⟨strayRest, straySource, false⟩ := by decide +kernel
  have wrote : (strayTree strayText).writeText stray.registry strayRest =
      (.ok (), strayTree strayRest) := by cbv
  have removed : stray.companions.remove (strayTree strayRest) straySource =
      (.ok true, (strayTree strayRest).erase strayFile) := by cbv
  have asks : stray.Asks (strayTree strayText) (.text ['a']) (toPoints ['a'])
      ⟨strayRest, straySource, false⟩ := ⟨by decide, strayText, read, edit⟩
  have deleted : (stray.delete (strayTree strayText) (.text ['a'])).2 =
      (strayTree strayRest).erase strayFile := by
    rw [delete_of_removed asks rfl wrote removed]
  rw [strayCall, answer, deleteVersion, ofOutcome_snd]
  exact deleted

private theorem grounded_strayTree (text : Text) : (strayTree text).Grounded := by
  refine ⟨by simp [Tree.Named, strayTree], fun before start => ?_⟩
  obtain rfl := List.prefix_nil.1 start
  rfl

private theorem proper_strayApi : strayApi.Proper :=
  ⟨by unfold Path.Proper; decide, by unfold Path.Proper; decide,
    by unfold Path.Proper; decide⟩

theorem run_confined_stray : strayApi.Proper ∧ (strayTree strayText).Grounded ∧
    ∃ before call after, [strayCall] = before ++ call :: after ∧
      strayApi.Touched (strayApi.run (strayTree strayText) before)
        (strayApi.run (strayTree strayText) (before ++ [call])) strayFile := by
  refine ⟨proper_strayApi, grounded_strayTree strayText, ?_⟩
  refine (run_confined proper_strayApi (grounded_strayTree strayText) [strayCall]
    strayFile).resolve_left ?_
  rw [run, answer_strayCall, run, Tree.get?_erase _ _ (by decide), if_pos rfl]
  simp [strayTree, strayFile, Tree.get?, List.lookup_cons]

/-- The deletion removes a file that is not in the directory of versions. -/
theorem answer_removes_outside :
    (strayTree strayText).realPath stray.companions.root = .ok ["versions".toList] ∧
      ¬["versions".toList] <+: strayFile ∧
      (strayTree strayText).get? strayFile = some (.file ByteArray.empty 0o644) ∧
      (strayApi.answer (strayTree strayText) strayCall).2.get? strayFile =
        none := by
  refine ⟨by cbv, by decide, by cbv, ?_⟩
  rw [answer_strayCall, Tree.get?_erase _ _ (by decide), if_pos rfl]

end Showcase.Http.Api

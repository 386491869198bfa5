import Mathlib
import Showcase.Proofs.Register

/-!
# Runs of a catalogue

A catalogue whose registry holds rows answers every call as the list of rows
does, and holds the rows that the call leaves (`Shelved.step`), so that this is
so along every run (`Catalogue.run_refines`).  No companion may lead to the
registry by its name, even if another file is found first: that file can go
(`Catalogue.run_removes_registry`).
-/

namespace Showcase

open Files Registry

/-! ## The directory of versions -/

namespace Catalogue

/-- The registry can be replaced at a place, and the directory of versions is
there, with no link in it or on the way to it. -/
structure Folder (catalogue : Catalogue) (tree : Tree) (place root : Place) :
    Prop where
  replaceable : tree.Replaceable catalogue.registry place
  housed : tree.Housed
  resolved : ∃ met, tree.progressOf catalogue.companions.root =
    .ok (.place root met)
  linkFree : Companions.LinkFree tree root
  searchable : Companions.Searchable tree root

variable {catalogue : Catalogue} {tree tree' : Tree} {place root : Place}

/-- Files have no part in it, but for the registry. -/
theorem Folder.of_alike (folder : catalogue.Folder tree place root)
    (alike : Tree.Alike tree tree')
    (replaceable : tree'.Replaceable catalogue.registry place) :
    catalogue.Folder tree' place root := by
  have same := folder.housed.sameLinks alike
  obtain ⟨met, resolved⟩ := folder.resolved
  obtain ⟨straight, inside⟩ := folder.linkFree
  obtain ⟨⟨mode, located⟩, search⟩ := folder.searchable
  have there : tree.get? root = some (.directory mode) :=
    (Tree.locate_found? located).symm
  have there' : tree'.get? root = some (.directory mode) :=
    (alike.get?_iff _ _ rfl).2 there
  have directory : tree.isDirectoryAt root = true := by
    simp [Tree.isDirectoryAt, there, Entry.isDirectory]
  refine ⟨replaceable, folder.housed.of_alike alike,
    ⟨met, same.progressOf_eq _ ▸ resolved⟩,
    ⟨⟨straight.named, fun before start target visible => ?_⟩,
      fun name target there => ?_⟩,
    ⟨mode, ?_⟩, ?_⟩
  · exact straight.noLink before start target ((same.visible?_iff _ _).1 visible)
  · exact inside name target ((alike.get?_iff _ (.link target) rfl).1 there)
  · rw [alike.locate_eq located, there']
  · rw [alike.permits directory, search]

theorem Folder.realPath_eq (folder : catalogue.Folder tree place root)
    {root' : Place}
    (resolved : tree.realPath catalogue.companions.root = .ok root') :
    root' = root := by
  obtain ⟨met, made⟩ := folder.resolved
  rcases Tree.realPath_eq_ok resolved with ⟨_, made'⟩ | ⟨_, made', -⟩ <;>
    rw [made] at made' <;> cases made'
  rfl

/-- A source that is a file name in the directory of versions, and does not lead
to the registry, whichever ending is added. -/
def Accompanies (catalogue : Catalogue) (place root : Place) (source : Text) :
    Prop :=
  ∃ name, source = "./".toList ++ name ∧
    ∀ ending ∈ [] :: catalogue.companions.extensions,
      Companions.Ordinary root (name ++ ending) ∧ root ++ [name ++ ending] ≠ place

/-- A catalogue whose registry holds some rows, the sources of which are
companions. -/
structure Shelved (catalogue : Catalogue) (tree : Tree) (place root : Place)
    (text : Text) (rows : List Row) (d : Declaration) (doc : Document) : Prop where
  folder : catalogue.Folder tree place root
  read : catalogue.readRegistry tree = .ok text
  holds : Holds catalogue.listName text rows d doc
  companions : ∀ source ∈ rows.map Row.source,
    catalogue.Accompanies place root source

/-! ## One call -/

/-- A call has the answer of the machine, and the registry holds the rows that
the machine has then. -/
structure Follows (catalogue : Catalogue) (place root : Place)
    (outcome : Outcome (List Version))
    (expected : Except Failure (List Version) × List Row) : Prop where
  answer : outcome.1 = expected.1
  after : ∃ text d doc, catalogue.Shelved outcome.2 place root text expected.2 d doc

namespace Shelved

variable {catalogue : Catalogue} {tree : Tree} {place root : Place}
  {text : Text} {rows : List Row} {d : Declaration} {doc : Document}

private theorem follows
    (shelved : catalogue.Shelved tree place root text rows d doc)
    {outcome : Outcome (List Version)} {answer : Except Failure (List Version)}
    (made : outcome = (answer, tree)) :
    catalogue.Follows place root outcome (answer, rows) := by
  subst made
  exact ⟨rfl, text, d, doc, shelved⟩

theorem list_eq (shelved : catalogue.Shelved tree place root text rows d doc) :
    catalogue.list tree = .ok (Rows.versions rows) := by
  rw [Catalogue.list_eq shelved.read shelved.holds.scanned,
    shelved.holds.versionsOf_eq]
  rfl

theorem replaced (shelved : catalogue.Shelved tree place root text rows d doc)
    {new : Text} {written : Tree} {rows' : List Row} {d' : Declaration}
    {doc' : Document} (replaced : tree.Replaced place new written)
    (holds : Holds catalogue.listName new rows' d' doc')
    (sources : ∀ source ∈ rows'.map Row.source, source ∈ rows.map Row.source) :
    catalogue.Shelved written place root new rows' d' doc' := by
  have replaceable := replaced.replaceable shelved.folder.replaceable
  refine ⟨shelved.folder.of_alike replaced.alike replaceable, ?_, holds,
    fun source mem =>
    shelved.companions source (sources source mem)⟩
  rw [readRegistry_eq replaceable]
  exact replaced.readText_eq shelved.folder.replaceable

theorem erased (shelved : catalogue.Shelved tree place root text rows d doc)
    {gone : Place} (more : gone ≠ []) {content : ByteArray} {mode : Nat}
    (file : tree.get? gone = some (.file content mode)) (other : gone ≠ place) :
    catalogue.Shelved (tree.erase gone) place root text rows d doc := by
  have get (place : Place) :
      (tree.erase gone).get? place = if place = gone then none else
        tree.get? place :=
    tree.get?_erase place more
  have alike : Tree.Alike tree (tree.erase gone) := by
    refine .of_files rfl fun place => ?_
    rw [get]
    by_cases same : place = gone
    · subst same
      refine .inr ⟨fun entry there => ?_, by simp⟩
      rw [file] at there
      cases there
      rfl
    · exact .inl (if_neg same)
  obtain ⟨content, mode, located, readable⟩ := shelved.folder.replaceable.file
  have there : tree.get? place = some (.file content mode) :=
    (Tree.locate_found? located).symm
  have there' : (tree.erase gone).get? place = some (.file content mode) := by
    rw [get, if_neg (Ne.symm other), there]
  have replaceable : (tree.erase gone).Replaceable catalogue.registry place :=
    shelved.folder.replaceable.of_alike alike (List.length_filter_le _ _)
      ⟨content, mode, there', readable⟩
  have decoded : Utf8.decode? content = some text := by
    have read := shelved.read
    rw [readRegistry_eq shelved.folder.replaceable] at read
    obtain ⟨_, _, _, located', -, decoded⟩ := Tree.exists_of_readText read
    cases (Tree.locate_follow located (by simp)).symm.trans located'
    exact decoded
  refine ⟨shelved.folder.of_alike alike replaceable, ?_, shelved.holds,
    shelved.companions⟩
  rw [readRegistry_eq replaceable]
  exact replaceable.readText_eq there' decoded

theorem change (shelved : catalogue.Shelved tree place root text rows d doc)
    (request : Change) (id : Json) :
    catalogue.Follows place root ((Call.change request id).run catalogue tree)
      (Rows.step rows (.change request id)) := by
  have run := request.run_eq catalogue tree id
  have step : Rows.step rows (.change request id) =
      Rows.edited rows (checkId id >>= fun id =>
    request.value >>= fun value => Rows.write rows id request.field value) := rfl
  rw [step]
  cases accepted : checkId id with
  | error failure =>
      rw [accepted] at run
      exact shelved.follows (Call.run_change run)
  | ok ids =>
      cases requested : request.value with
      | error failure =>
          rw [accepted, requested] at run
          exact shelved.follows (Call.run_change run)
      | ok points =>
          rw [accepted, requested, ok_bind, map_ok] at run
          rw [ok_bind, ok_bind]
          dsimp only at run
          rw [setField_eq shelved.read] at run
          rcases shelved.holds.setField_cases ids request.field_ne_id
            request.field_ne_component
            points with ⟨failure, write, edit⟩ | ⟨write, edit⟩ |
              ⟨rows', new, d', doc', write, edit, holds, sources⟩
          · rw [edit] at run
            rw [write]
            exact shelved.follows (Call.run_change run)
          · rw [edit] at run
            rw [write]
            exact shelved.follows (Call.run_change run)
          · obtain ⟨written, wrote, replaced⟩ :=
              shelved.folder.replaceable.writeText_eq new
            rw [edit] at run
            dsimp only at run
            rw [← Tree.writeText, wrote] at run
            rw [write]
            exact (shelved.replaced replaced holds fun source mem =>
              sources ▸ mem).follows (Call.run_change run)

theorem delete (shelved : catalogue.Shelved tree place root text rows d doc)
    (id : Json) :
    catalogue.Follows place root ((Call.delete id).run catalogue tree)
      (Rows.step rows (.delete id)) := by
  have step : Rows.step rows (.delete id) =
    Rows.edited rows (checkId id >>= fun id => Rows.remove rows id) := rfl
  rw [step]
  cases accepted : checkId id with
  | error failure =>
      have run : catalogue.delete tree id = (.error failure, tree) := by
        simp only [Catalogue.delete, accepted]
        rfl
      exact shelved.follows (Call.run_delete run)
  | ok ids =>
      rw [ok_bind, Rows.remove]
      rcases shelved.holds.find_cases ids with ⟨found, found'⟩ |
        ⟨id', before, row, after, earlier, record, later, isId, found, picks⟩
      · have refused : Registry.remove text catalogue.listName ids =
            .error .noVersion := by
          rw [Registry.remove, scanText_eq shelved.holds.scanned, ok_bind, found']
          rfl
        have run : catalogue.delete tree id = (.error .noVersion, tree) := by
          simp only [Catalogue.delete, accepted, shelved.read, ok_bind, refused]
          rfl
        rw [found]
        exact shelved.follows (Call.run_delete run)
      · rw [found, ok_bind, picks.filter]
        obtain ⟨removal, d', doc', removed, source, shared, holds⟩ :=
          shelved.holds.remove picks isId
        obtain ⟨written, wrote, replaced⟩ :=
          shelved.folder.replaceable.writeText_eq removal.text
        have asks : catalogue.Asks tree id ids removal :=
          ⟨accepted, text, shelved.read, removed⟩
        have fewer : ∀ source ∈ (before ++ after).map Row.source,
            source ∈ rows.map Row.source := by
          rw [picks.rows]
          intro source mem
          simp only [List.map_append, List.map_cons, List.mem_append,
            List.mem_cons] at mem ⊢
          tauto
        have shelved' := shelved.replaced replaced holds fewer
        obtain ⟨name, isSource, names⟩ :=
          shelved.companions row.source (by simp [picks.rows])
        rw [← source] at isSource
        obtain ⟨met, resolved⟩ := shelved'.folder.resolved
        rcases delete_of_wrote asks wrote with
          ⟨made, -⟩ | ⟨gone, made, -, removes⟩ | ⟨failure, -, -, broken, -⟩
        · exact shelved'.follows (Call.run_delete made)
        · rw [isSource] at removes
          have isName' : isName name = true := by
            simpa using (names [] List.mem_cons_self).1.isName
          obtain ⟨⟨ending, listed, rfl⟩, content, mode, file⟩ :=
            removes.place_eq isName' shelved'.folder.linkFree fun _ =>
              shelved'.folder.realPath_eq
          exact (shelved'.erased (by simp) file (names ending listed).2).follows
            (Call.run_delete made)
        · -- the look-up of the companion file cannot fail without links on the way
          obtain ⟨path?, comes⟩ :=
            Companions.exists_resolve shelved'.folder.linkFree
            shelved'.folder.searchable resolved fun ending listed =>
              (names ending listed).1
          rw [isSource, comes] at broken
          cases broken

theorem step (shelved : catalogue.Shelved tree place root text rows d doc)
    (call : Call) :
    catalogue.Follows place root (call.run catalogue tree)
      (Rows.step rows call) := by
  cases call with
  | list => exact shelved.follows (by rw [Call.run, shelved.list_eq])
  | get id =>
      have found : (Call.get id).run catalogue tree =
          ((catalogue.get tree id).map ([·]), tree) := rfl
      rw [Catalogue.get, shelved.list_eq, ok_bind] at found
      unfold Rows.step
      dsimp only
      cases version? : (Rows.versions rows).find? fun version =>
        id.text? == some version.id with
      | none =>
          rw [version?] at found
          exact shelved.follows found
      | some version =>
          rw [version?] at found
          exact shelved.follows found
  | change request id => exact shelved.change request id
  | delete id => exact shelved.delete id

end Shelved

/-! ## Runs -/

/-- A catalogue whose registry holds rows answers some calls, one after another,
as the list of rows does; after them the registry can be read, the rows that are
left are listed, and a call makes of them what it is about. -/
theorem run_refines {catalogue : Catalogue} {tree : Tree} {place root : Place}
    {text : Text} {rows : List Row} {d : Declaration} {doc : Document}
    (shelved : catalogue.Shelved tree place root text rows d doc)
    (calls : List Call) :
    (catalogue.run tree calls).1 = (Rows.run rows calls).1 ∧
      (∃ text' doc', catalogue.readRegistry (catalogue.run tree calls).2 =
        .ok text' ∧
        scan text' catalogue.listName = .ok doc') ∧
      catalogue.list (catalogue.run tree calls).2 =
        .ok (Rows.versions (Rows.run rows calls).2) ∧
      ∀ next, Shows (Rows.versions (Rows.run rows calls).2) next
        (Rows.step (Rows.run rows calls).2 next).1
        (Rows.versions (Rows.step (Rows.run rows calls).2 next).2) := by
  induction calls generalizing tree text rows d doc with
  | nil =>
      exact ⟨rfl, ⟨text, doc, shelved.read, shelved.holds.scanned⟩, shelved.list_eq,
        shelved.holds.shows_step⟩
  | cons call calls ih =>
      obtain ⟨answer, text', d', doc', shelved'⟩ := shelved.step call
      obtain ⟨answers, rest⟩ := ih shelved'
      exact ⟨congrArg₂ List.cons answer answers, rest⟩

/-! ## Two names of one file -/

/-- Two records, the sources of which can lead to one file. -/
def twoSources : Text :=
  "import A from './index.tsx'\nimport B from './index'\nconst versions=[\x7bid:'a',component:A\x7d,\x7bid:'b',component:B\x7d]".toList

def twoSourcesTokens : Declaration where
  ahead := [.name 'i' "mport".toList 0, .name 'A' [] 7, .name 'f' "rom".toList 9,
    .string '\'' "./index.tsx'".toList 14, .name 'i' "mport".toList 28,
    .name 'B' [] 35, .name 'f' "rom".toList 37, .string '\'' "./index'".toList 42,
    .name 'c' "onst".toList 52]
  name := .name 'v' "ersions".toList 58
  between := [.punct '=' 66]
  opener := .punct '[' 67
  chunks := [
    ⟨[.punct '{' 68, .name 'i' ['d'] 69, .punct ':' 71,
      .string '\'' ['a', '\''] 72, .punct ',' 75, .name 'c' "omponent".toList 76,
      .punct ':' 85, .name 'A' [] 86, .punct '}' 87],
      some (.punct ',' 88)⟩,
    ⟨[.punct '{' 89, .name 'i' ['d'] 90, .punct ':' 92,
      .string '\'' ['b', '\''] 93, .punct ',' 96, .name 'c' "omponent".toList 97,
      .punct ':' 106, .name 'B' [] 107, .punct '}' 108], none⟩]
  closer := .punct ']' 109
  back := []

private theorem layout_twoSources : twoSourcesTokens.Layout defaultListName := by
  have read : statements none 0 twoSourcesTokens.tokens =
      [⟨twoSourcesTokens.ahead.take 4, none⟩,
        ⟨(twoSourcesTokens.ahead.drop 4).take 4, none⟩] := by
    decide +kernel
  refine ⟨⟨balanced_iff.2 (by decide +kernel), ⟨rfl, rfl⟩, ?_, ?_, rfl,
    by decide +kernel⟩, ?_, ?_, ?_⟩
  · exact .more ⟨balanced_iff.2 (by decide), by decide⟩ rfl
      (.last ⟨balanced_iff.2 (by decide), by decide⟩ (by simp))
  · exact ⟨rfl, rfl, rfl, rfl, rfl, rfl, rfl, rfl, rfl, trivial⟩
  · exact ⟨[.name 'c' "onst".toList 52], by rw [read]; rfl⟩
  · rw [read]
    simpa using ⟨balanced_iff.2 (by decide), balanced_iff.2 (by decide)⟩
  · intro chunk mem
    simp only [twoSourcesTokens, List.mem_cons, List.not_mem_nil, or_false] at mem
    rcases mem with rfl | rfl
    · exact isBlock_of_groupBody? (balanced_iff.2 (by decide)) rfl
    · exact isBlock_of_groupBody? (balanced_iff.2 (by decide)) rfl

def twoSourcesRow (id component : Char) (source : Text) : Row :=
  ⟨[⟨"id".toList, .string [id] '\'', false⟩,
    ⟨"component".toList, .name [component], false⟩], source⟩

def twoSourcesRows : List Row :=
  [twoSourcesRow 'a' 'A' "./index.tsx".toList,
    twoSourcesRow 'b' 'B' "./index".toList]

private theorem holds_twoSources :
    ∃ doc,
      Holds defaultListName twoSources twoSourcesRows twoSourcesTokens doc := by
  have imports : (scan twoSources defaultListName).map Document.imports =
      .ok [⟨⟨0, 27⟩, "./index.tsx".toList, some ['A'], [['A']]⟩,
        ⟨⟨28, 51⟩, "./index".toList, some ['B'], [['B']]⟩] := by decide +kernel
  obtain ⟨doc, scanned, imports⟩ := map_eq_ok_iff.1 imports
  refine ⟨doc, ?_, layout_twoSources, by decide, by decide +kernel, scanned, ?_⟩
  · decide +kernel
  · rw [imports]
    exact ⟨by decide, by decide, by decide, by decide, by decide⟩

/-- The registry, and a file that both sources lead to. -/
def twoSourcesTree (text : Text) : Tree :=
  ⟨[(["index.ts".toList], .file (Utf8.encode text) 0o644),
    (["index.tsx".toList], .file ByteArray.empty 0o644)], []⟩

/-- With this ending alone, no source leads to the registry by its name. -/
def typed : Catalogue :=
  { alone with companions := ⟨⟨0, []⟩, [".tsx".toList]⟩ }

private theorem get?_twoSources {text : Text} {place : Place}
    {entry : Files.Entry} (h : (twoSourcesTree text).get? place = some entry) :
    ∀ target, entry ≠ .link target := by
  rintro target rfl
  have listed : place = ["index.ts".toList] ∨ place = ["index.tsx".toList] := by
    simpa [twoSourcesTree] using Tree.mem_of_link h
  rcases listed with rfl | rfl <;> cases h

private theorem folder_twoSources (text : Text) :
    typed.Folder (twoSourcesTree text) ["index.ts".toList] [] := by
  have directory : (twoSourcesTree text).temporaryDirectory typed.registry = [] :=
    rfl
  have readable := Files.Entry.permits_read_file (Utf8.encode text)
  have names : ∀ n ≤ 2, isName (Tree.temporaryName typed.registry.name n) = true ∧
      Utf8.size (Tree.temporaryName typed.registry.name n) ≤ Tree.maxName ∧
      Utf8.size (Path.ofPlace [Tree.temporaryName typed.registry.name n]).toText ≤
        Tree.maxPath := by
    decide
  have replaceable :
      (twoSourcesTree text).Replaceable typed.registry ["index.ts".toList] :=
    ⟨⟨Utf8.encode text, 0o644, by cbv, readable⟩, ⟨_, by cbv⟩, rfl, rfl, rfl,
      by simp [directory], names⟩
  refine ⟨replaceable, ?_, ⟨[], by cbv⟩, ⟨⟨by simp, ?_⟩, ?_⟩, ⟨⟨_, by cbv⟩, by rfl⟩⟩
  · exact fun place name target there => absurd rfl (get?_twoSources there target)
  · exact fun before _ target visible =>
      absurd rfl (get?_twoSources (Tree.get?_of_visible? visible) target)
  · exact fun name target there => absurd rfl (get?_twoSources there target)

private theorem readRegistry_twoSources (text : Text) :
    typed.readRegistry (twoSourcesTree text) = .ok text := by
  have replaceable := (folder_twoSources text).replaceable
  rw [readRegistry_eq replaceable]
  exact replaceable.readText_eq rfl (Utf8.decode?_encode text)

private theorem shelved_twoSources :
    ∃ doc, typed.Shelved (twoSourcesTree twoSources) ["index.ts".toList] []
    twoSources twoSourcesRows twoSourcesTokens doc := by
  obtain ⟨doc, holds⟩ := holds_twoSources
  have ordinary : ∀ name ∈ ["index.tsx".toList, "index".toList],
      ∀ ending ∈ [[], ".tsx".toList],
      (isName (name ++ ending) = true ∧ Utf8.size (name ++ ending) ≤ Tree.maxName ∧
        Utf8.size (Path.ofPlace [name ++ ending]).toText ≤ Tree.maxPath) ∧
        [name ++ ending] ≠ ["index.ts".toList] := by decide
  have accompanies (name : Text)
      (listed : name ∈ ["index.tsx".toList, "index".toList]) :
      typed.Accompanies ["index.ts".toList] [] ("./".toList ++ name) := by
    refine ⟨name, rfl, fun ending mem => ?_⟩
    obtain ⟨⟨named, short, shortPath⟩, other⟩ := ordinary name listed ending mem
    exact ⟨⟨named, short, shortPath⟩, other⟩
  refine ⟨doc, folder_twoSources _, readRegistry_twoSources _, holds,
    fun source mem => ?_⟩
  simp only [twoSourcesRows, List.map_cons, List.map_nil, List.mem_cons,
    List.not_mem_nil, or_false] at mem
  rcases mem with rfl | rfl
  · exact accompanies "index.tsx".toList (by simp)
  · exact accompanies "index".toList (by simp)

def twoDeletions : List Call := [.delete (.ofString "a"), .delete (.ofString "b")]

private theorem run_twoSources :
    Rows.run twoSourcesRows twoDeletions = ([.ok [], .ok []], []) := by
  cbv

theorem run_refines_twoSources : ∃ doc,
    typed.Shelved (twoSourcesTree twoSources) ["index.ts".toList] [] twoSources
      twoSourcesRows
        twoSourcesTokens doc ∧
      (typed.run (twoSourcesTree twoSources) twoDeletions).1 = [.ok [], .ok []] ∧
      typed.list (typed.run (twoSourcesTree twoSources) twoDeletions).2 =
        .ok [] := by
  obtain ⟨doc, shelved⟩ := shelved_twoSources
  obtain ⟨answers, -, listed, -⟩ := run_refines shelved twoDeletions
  rw [run_twoSources] at answers listed
  exact ⟨doc, shelved, answers, listed⟩

def twoSourcesRest : Text :=
  "import B from './index'\nconst versions=[\x7bid:'b',component:B\x7d]".toList

/-- The first deletion removes the file that is found for both sources, so that
the second one finds the registry, and removes it. -/
private theorem run_twoDeletions :
    (alone.run (twoSourcesTree twoSources) twoDeletions).2 = ⟨[], []⟩ := by
  have read : alone.readRegistry (twoSourcesTree twoSources) = .ok twoSources :=
    readRegistry_twoSources twoSources
  have edit : Registry.remove twoSources alone.listName (toPoints "a".toList) =
      .ok ⟨twoSourcesRest, "./index.tsx".toList, false⟩ := by decide +kernel
  have wrote : (twoSourcesTree twoSources).writeText alone.registry twoSourcesRest =
      (.ok (), twoSourcesTree twoSourcesRest) := by cbv
  have removed : alone.companions.remove (twoSourcesTree twoSourcesRest)
      "./index.tsx".toList =
        (.ok true, aloneTree twoSourcesRest) := by cbv
  have asks : alone.Asks (twoSourcesTree twoSources) (.ofString "a")
      (toPoints "a".toList)
      ⟨twoSourcesRest, "./index.tsx".toList, false⟩ := ⟨by decide, _, read, edit⟩
  have edit' : Registry.remove twoSourcesRest alone.listName (toPoints "b".toList) =
      .ok ⟨"const versions=[]".toList, "./index".toList, false⟩ := by decide +kernel
  have wrote' : (aloneTree twoSourcesRest).writeText alone.registry
      "const versions=[]".toList =
        (.ok (), aloneTree "const versions=[]".toList) := by cbv
  have removed' : alone.companions.remove (aloneTree "const versions=[]".toList)
      "./index".toList =
        (.ok true, ⟨[], []⟩) := by cbv
  have asks' : alone.Asks (aloneTree twoSourcesRest) (.ofString "b")
      (toPoints "b".toList)
      ⟨"const versions=[]".toList, "./index".toList, false⟩ :=
    ⟨by decide, _, readRegistry_alone _, edit'⟩
  have first := Call.run_delete (delete_of_removed asks rfl wrote removed)
  have second := Call.run_delete (delete_of_removed asks' rfl wrote' removed')
  simp only [twoDeletions, Catalogue.run, first, second]

/-- No source leads to the registry at first, and yet the registry is gone after
two deletions. -/
theorem run_removes_registry :
    (∃ doc, Holds alone.listName twoSources twoSourcesRows twoSourcesTokens doc) ∧
      (∀ source ∈ twoSourcesRows.map Row.source,
        alone.companions.resolve (twoSourcesTree twoSources) source =
          .ok (some (Path.ofPlace ["index.tsx".toList]))) ∧
      Rows.versions (Rows.run twoSourcesRows twoDeletions).2 = [] ∧
      alone.list (alone.run (twoSourcesTree twoSources) twoDeletions).2 =
        .error .storage := by
  have resolved : ∀ source ∈ twoSourcesRows.map Row.source,
      alone.companions.resolve (twoSourcesTree twoSources) source =
        .ok (some (Path.ofPlace ["index.tsx".toList])) := by
    intro source mem
    simp only [twoSourcesRows, List.map_cons, List.map_nil, List.mem_cons,
      List.not_mem_nil, or_false] at mem
    rcases mem with rfl | rfl <;> cbv
  refine ⟨holds_twoSources, resolved, ?_, ?_⟩
  · rw [run_twoSources]
    rfl
  · rw [run_twoDeletions]
    cbv

end Catalogue

end Showcase

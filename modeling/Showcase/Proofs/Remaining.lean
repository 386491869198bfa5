import Showcase.Proofs.Deletions
import Showcase.Proofs.Registry.Validity

/-!
# Remaining versions

What the list holds after a deletion.  In a registry of the documented layout a
deletion is never refused and leaves the other records and imports
(`Catalogue.delete_of_layout`).  In any orderly registry the other versions are
still listed, each with the source that its component has among the imports that
are left (`Catalogue.list_of_deleted`).
-/

namespace Showcase

open Files Registry

/-! ## Versions without positions -/

/-- The source that a component has among some imports. -/
def sourceAmong (imports : List Import) (component? : Option Text) : Option Text :=
  component?.bind fun binding =>
    if binding.isEmpty then none
    else (imports.find? (·.names.contains binding)).map Import.source

/-- A version with the source that its component has among some imports. -/
def Version.sourcedFrom (imports : List Import) (version : Version) : Version :=
  { version with source? := sourceAmong imports version.component? }

/-- The version that a record with these fields is among some imports. -/
def Version.ofFields (imports : List Import)
    (fields : List (Text × FieldValue)) : Option Version :=
  let value? (name : String) :=
    (fieldValue? name.toList fields).bind FieldValue.text?
  (idAmong fields).map fun id =>
    ⟨id, value? "title", value? "type", value? "component",
      sourceAmong imports (value? "component")⟩

theorem sourceAmong_component (doc : Document) (record : Record) :
    (doc.companionImport? record).map Import.source =
      sourceAmong doc.imports (record.value? "component".toList) := by
  unfold Document.companionImport? sourceAmong Document.importFor?
  cases record.value? "component".toList with
  | none => rfl
  | some binding =>
      rw [Option.bind_some]
      cases h : binding.isEmpty <;> simp only [h] <;> rfl

theorem versionsOf_eq (doc : Document) :
    versionsOf doc = (doc.records.map Record.content).filterMap
      (Version.ofFields doc.imports) := by
  have each (record : Record) :
      Version.ofRecord? doc record =
        Version.ofFields doc.imports record.content := by
    simp only [Version.ofRecord?, Version.ofFields, sourceAmong_component,
      Record.id?_eq, Record.value?_eq]
  rw [versionsOf, funext each, List.filterMap_map]
  rfl

private theorem find?_content (imports : List Import) (binding : Text) :
    (imports.find? (·.names.contains binding)).map Import.source =
      ((imports.map Import.content).find? (·.2.2.contains binding)).map
      Prod.fst := by
  rw [List.find?_map, Option.map_map]
  rfl

theorem sourceAmong_content {imports imports' : List Import}
    (same : imports.map Import.content = imports'.map Import.content) :
    sourceAmong imports = sourceAmong imports' := by
  funext component?
  unfold sourceAmong
  simp only [find?_content, same]

namespace Version

variable {imports imports' : List Import}

private theorem ofFields_content
    (same : imports.map Import.content = imports'.map Import.content) :
    ofFields imports = ofFields imports' := by
  funext fields
  unfold ofFields
  rw [sourceAmong_content same]

private theorem ofFields_sourcedFrom (imports imports' : List Import)
    (fields : List (Text × FieldValue)) :
    ofFields imports' fields =
      (ofFields imports fields).map (sourcedFrom imports') := by
  unfold ofFields
  rw [Option.map_map]
  rfl

private theorem id_of_mem_ofFields {fields : List (Text × FieldValue)}
    {version : Version} (h : ofFields imports fields = some version) :
    idAmong fields = some version.id := by
  obtain ⟨id, held, rfl⟩ := Option.map_eq_some_iff.1 h
  exact held

private theorem filterMap_others {contents : List (List (Text × FieldValue))}
    {id : Text} (others : ∀ fields ∈ contents, idAmong fields ≠ some id) :
    (contents.filterMap (ofFields imports)).filter (·.id != id) =
      contents.filterMap (ofFields imports) := by
  refine List.filter_eq_self.2 fun version mem => ?_
  obtain ⟨fields, inside, made⟩ := List.mem_filterMap.1 mem
  have held := id_of_mem_ofFields made
  have := others fields inside
  simp only [held, ne_eq, Option.some.injEq] at this
  simpa using this

end Version

/-- A component keeps its source when an import goes that does not bind it. -/
private theorem sourceAmong_without {is is' : List Import} {statement : Import}
    {component? : Option Text}
    (unbound : ∀ binding ∈ component?, binding ∉ statement.names) :
    sourceAmong (is ++ is') component? =
      sourceAmong (is ++ statement :: is') component? := by
  cases component? with
  | none => rfl
  | some binding =>
      have notHere : ¬statement.names.contains binding = true := by
        simpa using unbound binding rfl
      have skip : (statement :: is').find? (·.names.contains binding) =
          is'.find? (·.names.contains binding) := List.find?_cons_of_neg notHere
      simp only [sourceAmong, Option.bind_some, List.find?_append, skip]

private theorem versionsOf_rest {doc doc' : Document}
    {before after : List Record} {record : Record} {id : Text}
    {imports : List Import} (records : doc.records = before ++ record :: after)
    (held : record.id? = some id)
    (others : ∀ r ∈ before ++ after, r.id? ≠ some id)
    (shortens : doc.Shortens doc' (before ++ after) imports) :
    versionsOf doc' = ((versionsOf doc).filter (·.id != id)).map
      (Version.sourcedFrom imports) := by
  have away (part : List Record) (among : ∀ r ∈ part, r ∈ before ++ after) :
      ∀ fields ∈ part.map Record.content, idAmong fields ≠ some id := by
    intro fields mem
    obtain ⟨r, inside, rfl⟩ := List.mem_map.1 mem
    rw [← Record.id?_eq]
    exact others r (among r inside)
  have gone : ([record.content].filterMap (Version.ofFields doc.imports)).filter
      (·.id != id) = [] := by
    rw [Record.id?_eq] at held
    refine List.filter_eq_nil_iff.2 fun version mem => ?_
    obtain ⟨fields, inside, made⟩ := List.mem_filterMap.1 mem
    obtain rfl := List.mem_singleton.1 inside
    simpa using Option.some.inj ((Version.id_of_mem_ofFields made).symm.trans held)
  have fewer : (versionsOf doc).filter (·.id != id) =
      ((before ++ after).map Record.content).filterMap
        (Version.ofFields doc.imports) := by
    rw [versionsOf_eq, records, List.map_append, List.map_cons,
      ← List.singleton_append,
      List.filterMap_append, List.filterMap_append, List.filter_append,
      List.filter_append, gone,
      List.nil_append,
      Version.filterMap_others (away before fun r mem => by simp [mem]),
      Version.filterMap_others (away after fun r mem => by simp [mem]),
      List.map_append, List.filterMap_append]
  rw [versionsOf_eq, fewer, shortens.records,
    Version.ofFields_content shortens.imports, List.map_filterMap]
  simp only [← Version.ofFields_sourcedFrom]

namespace Catalogue

variable {catalogue : Catalogue} {tree : Tree} {id : Json} {text : Text}
  {d : Declaration}

theorem list_eq {doc : Document} (read : catalogue.readRegistry tree = .ok text)
    (scanned : scan text catalogue.listName = .ok doc) :
    catalogue.list tree = .ok (versionsOf doc) := by
  rw [list, read, ok_bind, scanText_eq scanned]
  rfl

/-- In a registry of the documented layout the deletion of a record is never
refused if no other import has the source of its own.  What is written reads as
the other records in their order, with all imports if another record has the
same component and else without that one. -/
theorem delete_of_layout {place : Place} {old : Document} {record : Record}
    {statement : Import} {ids : List CodePoint} {id' : Text}
    (replaceable : tree.Replaceable catalogue.registry place)
    (read : catalogue.readRegistry tree = .ok text)
    (tokens : tokenize text = .ok d.tokens)
    (layout : d.Layout catalogue.listName) (paired : pairedReturns text = true)
    (scanned : scan text catalogue.listName = .ok old)
    (accepted : checkId id = .ok ids) (isId : scalars? ids = some id')
    (found : old.find id' = .ok record)
    (companion : old.companionImport? record = some statement)
    (alone : old.imports.filter (·.source == statement.source) = [statement]) :
    ∃ others shared removal written new,
      others = old.records.filter (·.id? != some id') ∧
      shared = others.any (·.value? "component".toList ==
        record.value? "component".toList) ∧
      removal.source = statement.source ∧ removal.shared = shared ∧
      Registry.remove text catalogue.listName ids = .ok removal ∧
      tree.writeText catalogue.registry removal.text = (.ok (), written) ∧
      tree.Replaced place removal.text written ∧
      (catalogue.delete tree id =
        let (answer, after) := catalogue.removeCompanion written removal
        (answer.map (⟨ids, true, ·⟩), after)) ∧
      scan removal.text catalogue.listName = .ok new ∧
      old.Shortens new others
        (if shared then old.imports else
          old.imports.filter (·.source != statement.source)) := by
  obtain ⟨before, after, is, is', removable⟩ := exists_removable found companion
  have readImports : ∃ imports, importsOf (statements none 0 d.tokens) =
      .ok imports := by
    obtain ⟨_, -, -, found, -⟩ := scan_says tokens scanned
    exact ⟨_, found⟩
  obtain ⟨_, readImports⟩ := readImports
  have orderly := layout.orderly (tokenize_eq_ok_iff.1 tokens) readImports
  have others : old.records.filter (·.id? != some id') = before ++ after := by
    have kept (part : List Record) (among : ∀ r ∈ part, r ∈ before ++ after) :
        part.filter (·.id? != some id') = part :=
      List.filter_eq_self.2 fun r mem => by
      simpa using removable.others r (among r mem)
    rw [removable.records, List.filter_append,
      List.filter_cons_of_neg (by simp [removable.held]),
      kept before fun r mem => by simp [mem], kept after fun r mem => by simp [mem]]
  have differs := removable.source_ne alone
  have otherImports : old.imports.filter (·.source != statement.source) =
      is ++ is' := by
    have kept (part : List Import) (among : ∀ i ∈ part, i ∈ is ++ is') :
        part.filter (·.source != statement.source) = part :=
      List.filter_eq_self.2 fun i mem => by simpa using differs i (among i mem)
    rw [removable.imports, List.filter_append, List.filter_cons_of_neg (by simp),
      kept is fun i mem => by simp [mem], kept is' fun i mem => by simp [mem]]
  obtain ⟨new, doc', removed, scanned', shortens⟩ :=
    orderly.exists_remove tokens scanned paired isId removable differs
  obtain ⟨written, wrote, replaced⟩ := replaceable.writeText_eq new
  have asks : catalogue.Asks tree id ids ⟨new, statement.source,
      isShared old record⟩ :=
    ⟨accepted, text, read, removed⟩
  have shared := isShared_eq scanned removable.records
  refine ⟨_, _, ⟨new, statement.source, isShared old record⟩, written, doc', rfl,
    rfl, rfl, ?_, removed, wrote, replaced, ?_, scanned', ?_⟩
  · rw [others, shared]
  · rw [delete_eq_of_asks asks, wrote]
  · rw [others, otherImports, ← shared]
    exact shortens

/-- After a deletion from an orderly registry the other versions are listed as
before, each with the source that its component has among the imports that are
left.  That is the source it had, unless the deleted record's import has gone
and binds this component too. -/
theorem list_of_deleted (grounded : tree.Grounded)
    (proper : catalogue.registry.Proper)
    (read : catalogue.readRegistry tree = .ok text)
    (tokens : tokenize text = .ok d.tokens)
    (orderly : d.Orderly catalogue.listName)
    (paired : pairedReturns text = true) {deletion : Deletion} {after : Tree}
    (deleted : catalogue.delete tree id = (.ok deletion, after))
    (there : after.doesExist catalogue.registry = .ok true) :
    ∃ id' old record statement remaining versions,
      scalars? deletion.id = some id' ∧ scan text catalogue.listName = .ok old ∧
      old.find id' = .ok record ∧ old.companionImport? record = some statement ∧
      (remaining = old.imports ∨
        isShared old record = false ∧
          ∃ is is', old.imports = is ++ statement :: is' ∧ remaining = is ++ is') ∧
      catalogue.list tree = .ok versions ∧
      catalogue.list after =
        .ok ((versions.filter (·.id != id')).map (Version.sourcedFrom remaining)) ∧
      ∀ version ∈ versions, version.sourcedFrom remaining = version ∨
        isShared old record = false ∧ ∃ binding ∈ version.component?,
          binding ∈ statement.names := by
  obtain ⟨ids, removal, written, target, mode, gone?, asks, wrote, kept, isEnd,
    puts, readable, located,
    rfl, outcome⟩ := exists_of_deleted grounded proper deleted
  have readAfter : catalogue.readRegistry after = .ok removal.text := by
    have readWritten : after.readText catalogue.registry = .ok removal.text := by
      have decoded := Utf8.decode?_encode removal.text
      rcases outcome with ⟨rfl, rfl⟩ | ⟨place, rfl, more, isEnd', rfl, -, -⟩
      · exact Tree.readText_eq_of_locate (Tree.locate_follow located (by simp))
          readable decoded
      · -- the companion file is not the registry, which is still there
        refine (readText_erase_iff more isEnd' located readable decoded).2
          fun same => ?_
        subst same
        simp [doesExist_erase more isEnd' located] at there
    rw [readRegistry, there, ok_bind]
    exact readWritten
  obtain ⟨text', read', removed⟩ := asks.edit
  obtain rfl : text = text' := Except.ok.inj (read.symm.trans read')
  obtain ⟨old, id', record, statement, scanned, isId, found, companion,
      cut, -, shared⟩ :=
    exists_of_remove removed
  obtain ⟨before, behind, is, is', removable⟩ := exists_removable found companion
  obtain ⟨new, doc', cut', scanned', shortens⟩ :=
    orderly.exists_rest tokens scanned paired removable
  obtain rfl : removal.text = new := Except.ok.inj (cut.symm.trans cut')
  refine ⟨id', old, record, statement, if isShared old record then old.imports
    else is ++ is',
    versionsOf old, isId, scanned, found, companion, ?_, list_eq read scanned, ?_,
    ?_⟩
  · cases h : isShared old record with
    | true => exact .inl (if_pos rfl)
    | false => exact .inr ⟨rfl, is, is', removable.imports, if_neg (by simp)⟩
  · rw [list_eq readAfter scanned',
      versionsOf_rest removable.records removable.held removable.others shortens]
  · intro version mem
    rw [versionsOf_eq] at mem
    obtain ⟨fields, -, made⟩ := List.mem_filterMap.1 mem
    have source : version.source? = sourceAmong old.imports version.component? := by
      obtain ⟨_, -, rfl⟩ := Option.map_eq_some_iff.1 made
      rfl
    cases h : isShared old record with
    | true =>
        refine .inl ?_
        rw [if_pos rfl, Version.sourcedFrom, ← source]
    | false =>
        rw [if_neg (by simp)]
        by_cases bound : ∃ binding ∈ version.component?, binding ∈ statement.names
        · exact .inr ⟨rfl, bound⟩
        · refine .inl ?_
          have unbound : ∀ binding ∈ version.component?,
              binding ∉ statement.names :=
            fun binding mem inside => bound ⟨binding, mem, inside⟩
          rw [Version.sourcedFrom, sourceAmong_without unbound,
            ← removable.imports, ← source]

/-! ## A registry with two records -/

/-- An import and two records, one of which it belongs to. -/
def twoRecords : Text :=
  "import A from 'a'\nconst versions=[\x7bid:'a',component:A\x7d,\x7bid:'b'\x7d]".toList

def twoRecordsTokens : Declaration where
  ahead := [.name 'i' "mport".toList 0, .name 'A' [] 7, .name 'f' "rom".toList 9,
    .string '\'' ['a', '\''] 14, .name 'c' "onst".toList 18]
  name := .name 'v' "ersions".toList 24
  between := [.punct '=' 32]
  opener := .punct '[' 33
  chunks := [
    ⟨[.punct '{' 34, .name 'i' ['d'] 35, .punct ':' 37,
      .string '\'' ['a', '\''] 38, .punct ',' 41, .name 'c' "omponent".toList 42,
      .punct ':' 51, .name 'A' [] 52, .punct '}' 53],
      some (.punct ',' 54)⟩,
    ⟨[.punct '{' 55, .name 'i' ['d'] 56, .punct ':' 58,
      .string '\'' ['b', '\''] 59, .punct '}' 62], none⟩]
  closer := .punct ']' 63
  back := []

theorem tokenize_twoRecords :
    tokenize twoRecords = .ok twoRecordsTokens.tokens := by
  decide +kernel

theorem layout_twoRecords : twoRecordsTokens.Layout defaultListName := by
  have only : statements none 0 twoRecordsTokens.tokens =
      [⟨twoRecordsTokens.ahead.take 4, none⟩] := by decide +kernel
  refine ⟨⟨balanced_iff.2 (by decide +kernel), ⟨rfl, rfl⟩, ?_, ?_, rfl,
    by decide +kernel⟩, ?_, ?_, ?_⟩
  · exact .more ⟨balanced_iff.2 (by decide), by decide⟩ rfl
      (.last ⟨balanced_iff.2 (by decide), by decide⟩ (by simp))
  · exact ⟨rfl, rfl, rfl, rfl, rfl, trivial⟩
  · exact ⟨[.name 'c' "onst".toList 18], by rw [only]; rfl⟩
  · rw [only]
    simpa using balanced_iff.2 (by decide)
  · intro chunk mem
    simp only [twoRecordsTokens, List.mem_cons, List.not_mem_nil, or_false] at mem
    rcases mem with rfl | rfl
    · exact isBlock_of_groupBody? (balanced_iff.2 (by decide)) rfl
    · exact isBlock_of_groupBody? (balanced_iff.2 (by decide)) rfl

def twoRecordsImport : Import := ⟨⟨0, 17⟩, ['a'], some ['A'], [['A']]⟩

def twoRecordsFirst : Record :=
  ⟨⟨34, 54⟩, [⟨"id".toList, .string ['a'] '\'', ⟨38, 41⟩⟩,
    ⟨"component".toList, .name ['A'], ⟨52, 53⟩⟩], some ⟨54, 55⟩, none⟩

def twoRecordsSecond : Record :=
  ⟨⟨55, 63⟩, [⟨"id".toList, .string ['b'] '\'', ⟨59, 62⟩⟩], none, some ⟨54, 55⟩⟩

def twoRecordsDocument : Document :=
  ⟨twoRecords, ⟨33, 64⟩, [twoRecordsImport], [twoRecordsFirst, twoRecordsSecond],
    2, false⟩

theorem scan_twoRecords :
    scan twoRecords defaultListName = .ok twoRecordsDocument := by
  decide +kernel

theorem delete_of_layout_twoRecords :
    (aloneTree twoRecords).Replaceable alone.registry ["index.ts".toList] ∧
      alone.readRegistry (aloneTree twoRecords) = .ok twoRecords ∧
      tokenize twoRecords = .ok twoRecordsTokens.tokens ∧
      twoRecordsTokens.Layout alone.listName ∧ pairedReturns twoRecords = true ∧
      scan twoRecords alone.listName = .ok twoRecordsDocument ∧
      checkId (.ofString "a") = .ok (toPoints "a".toList) ∧
      twoRecordsDocument.find "a".toList = .ok twoRecordsFirst ∧
      twoRecordsDocument.companionImport? twoRecordsFirst = some twoRecordsImport ∧
      ∃ removal written new,
        (aloneTree twoRecords).Replaced ["index.ts".toList] removal.text written ∧
        (alone.delete (aloneTree twoRecords) (.ofString "a")).2 =
          (alone.removeCompanion written removal).2 ∧
        scan removal.text alone.listName = .ok new ∧
        twoRecordsDocument.Shortens new [twoRecordsSecond] [] := by
  obtain ⟨others, shared, removal, written, new, rfl, rfl, -, -, -, -, replaced,
    deleted, scanned,
    shortens⟩ := delete_of_layout (replaceable_alone twoRecords)
      (readRegistry_alone twoRecords)
      tokenize_twoRecords layout_twoRecords (by decide) scan_twoRecords
      (by decide : checkId (.ofString "a") = .ok (toPoints "a".toList))
      (by decide : scalars? (toPoints "a".toList) = some "a".toList)
      (rfl : twoRecordsDocument.find "a".toList = .ok twoRecordsFirst)
      (rfl : twoRecordsDocument.companionImport? twoRecordsFirst =
        some twoRecordsImport) rfl
  exact ⟨replaceable_alone _, readRegistry_alone _, tokenize_twoRecords,
    layout_twoRecords, by decide,
    scan_twoRecords, by decide, rfl, rfl, removal, written, new, replaced, by
      rw [deleted], scanned,
    shortens⟩

theorem delete_of_not_relative {removal : Removal}
    (removed : Registry.remove text alone.listName (toPoints "a".toList) =
      .ok removal)
    (other : "./".toList.isPrefixOf removal.source = false) : ∃ after,
      alone.delete (aloneTree text) (.ofString "a") =
        (.ok ⟨toPoints "a".toList, true, false⟩, after) ∧
        (aloneTree text).Replaced ["index.ts".toList] removal.text after := by
  obtain ⟨after, wrote, replaced⟩ :=
    (replaceable_alone text).writeText_eq removal.text
  have refused : alone.companions.resolve after removal.source =
      .error (.refused .importNotRelative) := by
    unfold Companions.resolve Companions.locate
    rw [other]
    rfl
  rcases delete_of_wrote (asks_alone removed) wrote with
    ⟨deleted, -⟩ | ⟨_, -, -, ⟨_, _, found, -⟩⟩ | ⟨failure, -, -, failed, cause⟩
  · exact ⟨after, deleted, replaced⟩
  · simp [refused] at found
  · obtain rfl : failure = .refused .importNotRelative := by
      simpa [refused] using failed.symm
    simp [searchFailures] at cause

private theorem list_of_replaced {new : Text} {after : Tree} {doc : Document}
    (replaced : (aloneTree text).Replaced ["index.ts".toList] new after)
    (scanned : scan new alone.listName = .ok doc) :
    alone.list after = .ok (versionsOf doc) := by
  refine list_eq ?_ scanned
  rw [readRegistry_eq (replaced.replaceable (replaceable_alone text))]
  exact replaced.readText_eq (replaceable_alone text)

theorem remove_twoRecords :
    Registry.remove twoRecords alone.listName (toPoints "a".toList) =
      .ok ⟨"const versions=[\x7bid:'b'\x7d]".toList, ['a'], false⟩ := by
    decide +kernel

theorem list_of_deleted_twoRecords :
    (aloneTree twoRecords).Grounded ∧ alone.registry.Proper ∧
      twoRecordsTokens.Orderly alone.listName ∧
      ∃ deletion after versions remaining,
        alone.delete (aloneTree twoRecords) (.ofString "a") =
          (.ok deletion, after) ∧
        after.doesExist alone.registry = .ok true ∧
        alone.list (aloneTree twoRecords) = .ok versions ∧
        alone.list after =
          .ok ((versions.filter (·.id != "a".toList)).map
            (Version.sourcedFrom remaining)) := by
  obtain ⟨after, deleted, replaced⟩ :=
    delete_of_not_relative remove_twoRecords (by decide)
  obtain ⟨_, -, -, readImports, -⟩ := scan_says tokenize_twoRecords scan_twoRecords
  have orderly := layout_twoRecords.orderly
    (tokenize_eq_ok_iff.1 tokenize_twoRecords) readImports
  have there : after.doesExist alone.registry = .ok true :=
    (replaced.replaceable (replaceable_alone twoRecords)).doesExist_eq
  obtain ⟨id', old, record, statement, remaining, versions, isId, -, -, -, -,
      listed, listed', -⟩ :=
    list_of_deleted (grounded_aloneTree twoRecords) proper_alone
    (readRegistry_alone twoRecords)
      tokenize_twoRecords orderly (by decide) deleted there
  obtain rfl : id' = "a".toList := by
    have known : scalars? (toPoints "a".toList) = some "a".toList := by decide
    exact Option.some.inj (isId.symm.trans known)
  exact ⟨grounded_aloneTree _, proper_alone, orderly, _, after, versions,
    remaining, deleted, there, listed, listed'⟩

/-- One import that binds the components of two records. -/
def twoNames : Text :=
  "import A,\x7bB\x7d from 'a'\nconst versions=[\x7bid:'a',component:A\x7d,\x7bid:'b',component:B\x7d]".toList

def twoNamesRest : Text := "const versions=[\x7bid:'b',component:B\x7d]".toList

/-- The other record loses its source. -/
theorem list_twoNames_of_deleted : ∃ deletion after,
    alone.delete (aloneTree twoNames) (.ofString "a") = (.ok deletion, after) ∧
      after.doesExist alone.registry = .ok true ∧
      alone.list (aloneTree twoNames) = .ok
        [⟨"a".toList, none, none, some "A".toList, some "a".toList⟩,
          ⟨"b".toList, none, none, some "B".toList, some "a".toList⟩] ∧
      alone.list after = .ok [⟨"b".toList, none, none, some "B".toList, none⟩] := by
  have removed : Registry.remove twoNames alone.listName (toPoints "a".toList) =
      .ok ⟨twoNamesRest, ['a'], false⟩ := by decide +kernel
  have before : (scan twoNames alone.listName).map versionsOf = .ok
      [⟨"a".toList, none, none, some "A".toList, some "a".toList⟩,
        ⟨"b".toList, none, none, some "B".toList, some "a".toList⟩] := by
          decide +kernel
  have afterwards : (scan twoNamesRest alone.listName).map versionsOf = .ok
      [⟨"b".toList, none, none, some "B".toList, none⟩] := by decide +kernel
  obtain ⟨after, deleted, replaced⟩ := delete_of_not_relative removed (by decide)
  obtain ⟨old, scanned, listed⟩ := map_eq_ok_iff.1 before
  obtain ⟨new, scanned', listed'⟩ := map_eq_ok_iff.1 afterwards
  refine ⟨_, after, deleted,
    (replaced.replaceable (replaceable_alone twoNames)).doesExist_eq, ?_, ?_⟩
  · rw [list_eq (readRegistry_alone twoNames) scanned, listed]
  · rw [list_of_replaced replaced scanned', listed']

end Catalogue

end Showcase

import Showcase.Proofs.Remaining

/-!
# Default bindings

An import binds its default name unless this is a word of the import clause
(`default_bound_iff`).
-/

namespace Showcase.Registry

open Bracketed (isClauseWord)

/-! ## The names of a clause -/

private theorem isClauseWord_of_mem_namesOf {ts : List Token} {name : Text}
    (mem : name ∈ namesOf ts) :
    isClauseWord name = false := by
  fun_induction namesOf ts with
  | case1 => simp at mem
  | case2 t bound =>
      obtain rfl := List.mem_singleton.1 mem
      exact bound.2
  | case3 => simp at mem
  | case4 t next ts bound renamed ih => exact ih mem
  | case5 t next ts bound plain ih =>
      rcases List.mem_cons.1 mem with rfl | mem
      · exact bound.2
      · exact ih mem
  | case6 t next ts other ih => exact ih mem

/-- A default name stands before the word `from` or a comma, so that it is not
renamed. -/
private theorem mem_namesOf_of_default {ts : List Token} {name : Text}
    (isDefault : defaultOf? ts = some name)
    (plain : isClauseWord name = false) : name ∈ namesOf ts := by
  match ts with
  | [] | [_] => simp [defaultOf?] at isDefault
  | t :: next :: ts =>
      rw [defaultOf?] at isDefault
      split at isDefault
      next default =>
        obtain ⟨isName, behind⟩ := default
        obtain rfl := Option.some.inj isDefault
        have notRenamed : next.text ≠ "as".toList := by
          rcases behind with behind | behind
          · rw [behind]
            decide
          · rw [behind]
            decide
        rw [namesOf, if_pos ⟨isName, plain⟩, if_neg notRenamed]
        exact List.mem_cons_self
      next => simp at isDefault

private theorem default_ne_nil {ts : List Token} {name : Text}
    (isDefault : defaultOf? ts = some name) :
    name ≠ [] := by
  match ts with
  | [] | [_] => simp [defaultOf?] at isDefault
  | t :: next :: ts =>
      rw [defaultOf?] at isDefault
      split at isDefault
      next =>
        obtain rfl := Option.some.inj isDefault
        exact List.cons_ne_nil _ _
      next => simp at isDefault

/-! ## The imports of a document -/

section

variable {text listName name id : Text} {doc : Document} {i : Import}
  {record : Record} {ids : List CodePoint}

/-- Both passes over an import read the same clause. -/
private theorem exists_clause (scanned : scan text listName = .ok doc)
    (mem : i ∈ doc.imports) :
    ∃ ts, i.defaultName? = defaultOf? ts ∧ i.names = namesOf ts := by
  obtain ⟨d, tokenized, -⟩ := Declaration.exists_of_scan scanned
  obtain ⟨-, -, -, read, -⟩ := scan_says tokenized scanned
  obtain ⟨before, after, shape⟩ := List.append_of_mem mem
  obtain ⟨-, s, -, -, -, here, -⟩ := exists_statement (shape ▸ read)
  rw [importOf] at here
  split at here
  next => simp at here
  next =>
    split at here
    next =>
      obtain ⟨path, -, rfl⟩ := map_eq_ok_iff.1 here
      exact ⟨clauseOf s.tokens.tail, rfl, rfl⟩
    next => simp at here

private theorem Document.exists_importFor? :
    (∃ first, doc.importFor? name = some first) ↔ ∃ j ∈ doc.imports,
      name ∈ j.names := by
  rw [← Option.isSome_iff_exists, importFor?, List.find?_isSome]
  simp

private theorem Document.companionImport?_eq
    (component : record.value? "component".toList = some name)
    (nonempty : name ≠ []) : doc.companionImport? record = doc.importFor? name := by
  rw [companionImport?, component]
  simp [nonempty]

private theorem cutText_ne_noImport (doc : Document) (record : Record)
    (statement : Import) (shared : Bool) :
    cutText doc record statement shared ≠ .error .noImport := by
  intro h
  have splice (span : Span) (text filler : Text) :
      (span.splice text filler).mapError Failure.outOfText ≠ .error .noImport := by
    cases span.splice text filler <;> simp
  have lines (span : Span) : wholeLines doc.text span ≠ .error .noImport := by
    have either (p : Prop) [Decidable p] (a b : Span) :
        (if p then .ok a else .ok b : Except Failure Span) ≠ .error .noImport := by
      split <;> simp
    unfold wholeLines
    by_cases outside : doc.text.length < span.start ∨ doc.text.length < span.stop
    · rw [if_pos outside]
      simp
    · rw [if_neg outside]
      exact either _ _ _
  rcases bind_eq_error_iff.1 h with h | ⟨⟨span, filler⟩, -, h⟩
  · unfold recordCut at h
    split at h
    · simp at h
    · split at h
      · exact lines _ (map_eq_error_iff.1 h)
      · simp at h
      · simp at h
  · dsimp only at h
    split at h
    · exact splice _ _ _ h
    · rcases bind_eq_error_iff.1 h with h | ⟨whole, -, h⟩
      · exact lines _ h
      · split at h
        · rcases bind_eq_error_iff.1 h with h | ⟨cut, -, h⟩ <;> exact splice _ _ _ h
        · rcases bind_eq_error_iff.1 h with h | ⟨cut, -, h⟩ <;> exact splice _ _ _ h

private theorem remove_eq_noImport_iff (scanned : scan text listName = .ok doc)
    (isId : scalars? ids = some id) (found : doc.find id = .ok record) :
    remove text listName ids = .error .noImport ↔
      doc.companionImport? record = none := by
  cases companion : doc.companionImport? record with
  | none =>
      rw [remove, scanText_eq scanned, ok_bind,
        recordOf_eq_ok_iff.2 ⟨id, isId, found⟩, ok_bind]
      simp [companion]
  | some statement =>
      rw [remove_eq scanned isId found companion]
      simp only [reduceCtorEq, iff_false]
      intro h
      rcases bind_eq_error_iff.1 h with h | ⟨new, -, h⟩
      · exact cutText_ne_noImport _ _ _ _ h
      · rcases bind_eq_error_iff.1 h with h | ⟨after, -, h⟩
        · cases read : scan new listName <;> simp [scanText, read] at h
        · split at h <;> simp at h

private theorem exists_importFor?_default
    (scanned : scan text listName = .ok doc) (mem : i ∈ doc.imports)
    (isDefault : i.defaultName? = some name) :
    (∃ first, doc.importFor? name = some first) ↔ isClauseWord name = false := by
  rw [Document.exists_importFor?]
  constructor
  · rintro ⟨j, mem', bound⟩
    obtain ⟨ts, -, names⟩ := exists_clause scanned mem'
    exact isClauseWord_of_mem_namesOf (names ▸ bound)
  · intro plain
    obtain ⟨ts, default, names⟩ := exists_clause scanned mem
    exact ⟨i, mem, names ▸ mem_namesOf_of_default (default ▸ isDefault) plain⟩

/-- The default name of an import is bound exactly if it is no word of the
clause.  Then the records with this component are listed with a source, and can
be removed from an orderly text in which no other import has it.  Any other
default has no import at all, so that these records stay. -/
theorem default_bound_iff (scanned : scan text listName = .ok doc)
    (mem : i ∈ doc.imports) (isDefault : i.defaultName? = some name) :
    (name ∈ i.names ↔ isClauseWord name = false) ∧
      ((∃ first, doc.importFor? name = some first) ↔ isClauseWord name = false) ∧
      ∀ {record : Record} {id : Text}, record ∈ doc.records →
        record.value? "component".toList = some name → record.id? = some id →
        (∃ version ∈ versionsOf doc, version.id = id ∧
          version.component? = some name ∧
          version.source? = (doc.importFor? name).map Import.source) ∧
        ∀ {ids : List CodePoint}, scalars? ids = some id →
        doc.find id = .ok record →
          (remove text listName ids = .error .noImport ↔ isClauseWord name = true) ∧
          ∀ {d : Declaration} {first : Import}, doc.importFor? name = some first →
            doc.imports.filter (·.source == first.source) = [first] →
            tokenize text = .ok d.tokens → d.Layout listName →
            pairedReturns text = true →
              ∃ new, remove text listName ids =
                .ok ⟨new, first.source, isShared doc record⟩ := by
  obtain ⟨ts, default, names⟩ := exists_clause scanned mem
  have fromClause : defaultOf? ts = some name := default ▸ isDefault
  have found := exists_importFor?_default scanned mem isDefault
  refine ⟨⟨fun bound => isClauseWord_of_mem_namesOf (names ▸ bound),
    fun plain => names ▸ mem_namesOf_of_default fromClause plain⟩, found, ?_⟩
  intro record id among component held
  have companion : doc.companionImport? record = doc.importFor? name :=
    Document.companionImport?_eq component (default_ne_nil fromClause)
  refine ⟨⟨⟨id, record.value? "title".toList, record.value? "type".toList,
    record.value? "component".toList,
    (doc.companionImport? record).map (·.source)⟩, ?_, rfl, component,
    by rw [companion]⟩, fun isId located => ⟨?_, ?_⟩⟩
  · exact List.mem_filterMap.2 ⟨record, among, by rw [Version.ofRecord?, held]; rfl⟩
  · rw [remove_eq_noImport_iff scanned isId located, companion,
      ← Bool.not_eq_false, ← found]
    simp [Option.eq_none_iff_forall_ne_some]
  · intro d first isFirst alone tokens layout paired
    obtain ⟨_, -, -, readImports, -⟩ := scan_says tokens scanned
    have orderly := layout.orderly (tokenize_eq_ok_iff.1 tokens) readImports
    obtain ⟨before, after, is, is', removable⟩ :=
      exists_removable located (companion.trans isFirst)
    obtain ⟨new, -, removed, -⟩ :=
      orderly.exists_remove tokens scanned paired isId removable
      (removable.source_ne alone)
    exact ⟨new, removed⟩

end

end Showcase.Registry

namespace Showcase.Catalogue

open Registry

/-! ## A component with the name of a clause word -/

theorem default_bound_twoRecords :
    ['A'] ∈ twoRecordsImport.names ∧
      (∃ version ∈ versionsOf twoRecordsDocument, version.id = ['a'] ∧
        version.component? = some ['A'] ∧ version.source? = some ['a']) ∧
      ∃ new, remove twoRecords defaultListName (toPoints ['a']) =
        .ok ⟨new, ['a'], false⟩ := by
  obtain ⟨bound, -, rows⟩ :=
    default_bound_iff scan_twoRecords (by decide : twoRecordsImport ∈ _)
    (rfl : _ = some ['A'])
  obtain ⟨listed, removals⟩ :=
    rows (by decide : twoRecordsFirst ∈ _) (by decide) (rfl : _ = some ['a'])
  obtain ⟨-, removed⟩ :=
    removals (by decide : scalars? (toPoints ['a']) = _) (by rfl)
  have found : twoRecordsDocument.importFor? ['A'] = some twoRecordsImport := by
    decide
  rw [found] at listed
  refine ⟨bound.2 (by decide), listed, ?_⟩
  exact removed found (by decide) tokenize_twoRecords layout_twoRecords (by decide)

/-- An import with the default name `type`, and a record with this component. -/
def typeDefault : Text :=
  "import type from './t'\nconst versions=[\x7bid:'a',component:type\x7d]".toList

def typeImport : Import := ⟨⟨0, 22⟩, "./t".toList, some "type".toList, []⟩

/-- The default is not bound: the record is listed without a source and cannot
be deleted. -/
theorem typeDefault_unbound : ∃ doc,
    scan typeDefault defaultListName = .ok doc ∧ doc.imports = [typeImport] ∧
      typeImport.defaultName? = some "type".toList ∧
      "type".toList ∉ typeImport.names ∧
      doc.importFor? "type".toList = none ∧
      alone.list (aloneTree typeDefault) =
        .ok [⟨"a".toList, none, none, some "type".toList, none⟩] ∧
      alone.delete (aloneTree typeDefault) (.ofString "a") =
        (.error .noImport, aloneTree typeDefault) := by
  have shown : (scan typeDefault defaultListName).map (fun doc =>
      (doc.imports, versionsOf doc)) =
        .ok ([typeImport], [⟨"a".toList, none, none, some "type".toList, none⟩]) := by
        decide +kernel
  obtain ⟨doc, scanned, same⟩ := map_eq_ok_iff.1 shown
  obtain ⟨imports, listed⟩ := Prod.mk.inj same
  have accepted : checkId (.ofString "a") = .ok (toPoints "a".toList) := by decide
  have refused : remove typeDefault alone.listName (toPoints "a".toList) =
      .error .noImport := by
    decide +kernel
  refine ⟨doc, scanned, imports, rfl, by decide, ?_, ?_, ?_⟩
  · rw [Document.importFor?, imports]
    decide
  · rw [list_eq (readRegistry_alone _) scanned, listed]
  · simp only [delete, accepted, readRegistry_alone, refused, ok_bind, error_bind]

end Showcase.Catalogue

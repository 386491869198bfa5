import Showcase.Proofs.Registry.Layout
import Showcase.Proofs.Registry.SetField

/-!
# Removals that are offered

`remove` offers a text only if it reads as the old one without the record.  In
an orderly text this is so whenever no other import has the source of the
removed one (`Orderly.remove_eq`).
-/

namespace Showcase.Registry

/-- A record of a document and its import, with what stands around them. -/
structure Removable (doc : Document) (id : Text) (before : List Record)
    (record : Record) (after : List Record) (is : List Import)
    (statement : Import) (is' : List Import) : Prop where
  records : doc.records = before ++ record :: after
  imports : doc.imports = is ++ statement :: is'
  held : record.id? = some id
  others : ∀ r ∈ before ++ after, r.id? ≠ some id
  companion : doc.companionImport? record = some statement

section Remove

variable {text listName id : Text} {ids : List CodePoint} {doc : Document}
  {record : Record} {statement : Import} {before after : List Record}
  {is is' : List Import}

theorem exists_removable (found : doc.find id = .ok record)
    (companion : doc.companionImport? record = some statement) :
    ∃ before after is is',
      Removable doc id before record after is statement is' := by
  obtain ⟨before, after, records, held, ahead, behind⟩ := find_eq_ok_iff.1 found
  have among : statement ∈ doc.imports := by
    unfold Document.companionImport? at companion
    split at companion
    next => simp at companion
    next =>
      split at companion
      next => simp at companion
      next => exact List.mem_of_find?_eq_some companion
  obtain ⟨is, is', imports⟩ := List.append_of_mem among
  refine ⟨before, after, is, is', records, imports, held, fun r mem => ?_,
    companion⟩
  exact (List.mem_append.1 mem).elim (ahead r) (behind r)

theorem Removable.source_ne
    (removable : Removable doc id before record after is statement is')
    (alone : doc.imports.filter (·.source == statement.source) = [statement]) :
    ∀ i ∈ is ++ is', i.source ≠ statement.source := by
  rw [removable.imports, List.filter_append, List.filter_cons_of_pos (by simp)]
    at alone
  have length := congrArg List.length alone
  simp only [List.length_append, List.length_cons, List.length_nil] at length
  have ahead : is.filter (·.source == statement.source) = [] :=
    List.length_eq_zero_iff.1 (by omega)
  have behind : is'.filter (·.source == statement.source) = [] :=
    List.length_eq_zero_iff.1 (by omega)
  simp only [List.filter_eq_nil_iff, beq_iff_eq] at ahead behind
  exact fun i mem => (List.mem_append.1 mem).elim (ahead i) (behind i)

theorem remove_eq (scanned : scan text listName = .ok doc)
    (isId : scalars? ids = some id) (found : doc.find id = .ok record)
    (companion : doc.companionImport? record = some statement) :
    remove text listName ids =
      cutText doc record statement (isShared doc record) >>= fun new =>
        scanText new listName >>= fun doc' =>
          if isRemoval doc doc' id statement.source (isShared doc record) then
            .ok ⟨new, statement.source, isShared doc record⟩
          else .error .storage := by
  have held := Document.id?_of_find found
  rw [remove, scanText_eq scanned, ok_bind,
    recordOf_eq_ok_iff.2 ⟨id, isId, found⟩, ok_bind]
  simp only [companion, held]
  rfl

theorem exists_of_remove {removal : Removal}
    (h : remove text listName ids = .ok removal) :
    ∃ doc id record statement, scan text listName = .ok doc ∧
      scalars? ids = some id ∧
      doc.find id = .ok record ∧ doc.companionImport? record = some statement ∧
      cutText doc record statement (isShared doc record) = .ok removal.text ∧
      removal.source = statement.source ∧ removal.shared = isShared doc record := by
  obtain ⟨doc, scanned, rest⟩ := bind_eq_ok_iff.1 h
  have scanned := mapError_eq_ok_iff.1 scanned
  obtain ⟨record, named, -⟩ := bind_eq_ok_iff.1 rest
  obtain ⟨id, isId, found⟩ := recordOf_eq_ok_iff.1 named
  cases companion : doc.companionImport? record with
  | none =>
      simp only [named, ok_bind, companion] at rest
      simp at rest
  | some statement =>
      rw [remove_eq scanned isId found companion] at h
      obtain ⟨new, cut, rest⟩ := bind_eq_ok_iff.1 h
      obtain ⟨doc', -, rest⟩ := bind_eq_ok_iff.1 rest
      split at rest
      next =>
        obtain rfl := Except.ok.inj rest
        exact ⟨doc, id, record, statement, scanned, isId, found, companion,
          cut, rfl, rfl⟩
      next => simp at rest

private theorem source_ne_of_content {is is' : List Import} {source : Text}
    (same : is.map Import.content = is'.map Import.content)
    (others : ∀ i ∈ is, i.source ≠ source) : ∀ i ∈ is', i.source ≠ source := by
  intro i mem
  have sources := congrArg (List.map Prod.fst) same
  rw [List.map_map, List.map_map] at sources
  have : i.source ∈ is'.map (Prod.fst ∘ Import.content) := List.mem_map_of_mem mem
  rw [← sources] at this
  obtain ⟨j, memJ, source⟩ := List.mem_map.1 this
  rw [← source]
  exact others j memJ

/-- The text without a record passes the test of a removal. -/
theorem Document.Shortens.isRemoval {doc' : Document} {shared : Bool}
    (removable : Removable doc id before record after is statement is')
    (shortens : doc.Shortens doc' (before ++ after) (if shared then doc.imports
      else is ++ is'))
    (alone : ∀ i ∈ is ++ is', i.source ≠ statement.source) :
    isRemoval doc doc' id statement.source shared = true := by
  have records := congrArg List.length shortens.records
  have imports := congrArg List.length shortens.imports
  rw [List.length_map, List.length_map] at records imports
  have noId : ∀ r ∈ doc'.records, r.id? ≠ some id :=
    id?_ne_of_content shortens.records.symm removable.others
  have number : doc'.imports.length + (if shared then 0 else 1) =
      doc.imports.length := by
    rw [imports]
    cases shared with
    | true => rfl
    | false =>
        simp [removable.imports]
        omega
  have noSource : shared = true ∨ ∀ i ∈ doc'.imports,
      i.source ≠ statement.source := by
    cases shared with
    | true => exact .inl rfl
    | false => exact .inr (source_ne_of_content shortens.imports.symm alone)
  have one : doc'.records.length + 1 = doc.records.length := by
    rw [records, removable.records]
    simp
    omega
  simp only [Registry.isRemoval, Bool.and_eq_true, Bool.or_eq_true,
    List.all_eq_true, bne_iff_ne, beq_iff_eq]
  exact ⟨⟨⟨⟨one, noId⟩, number⟩, noSource⟩, shortens.trailing⟩

namespace Declaration

variable {d : Declaration}

theorem Orderly.exists_rest (orderly : d.Orderly listName)
    (tokens : tokenize text = .ok d.tokens)
    (scanned : scan text listName = .ok doc)
    (paired : pairedReturns text = true)
    (removable : Removable doc id before record after is statement is') :
    ∃ new doc', cutText doc record statement (isShared doc record) = .ok new ∧
      scan new listName = .ok doc' ∧
      doc.Shortens doc' (before ++ after) (if isShared doc record then doc.imports
        else is ++ is') :=
  orderly.exists_shortened tokens scanned paired removable.records
  removable.imports _

/-- In an orderly text a removal is never refused, unless another import has the
same source. -/
theorem Orderly.exists_remove (orderly : d.Orderly listName)
    (tokens : tokenize text = .ok d.tokens)
    (scanned : scan text listName = .ok doc)
    (paired : pairedReturns text = true) (isId : scalars? ids = some id)
    (removable : Removable doc id before record after is statement is')
    (alone : ∀ i ∈ is ++ is', i.source ≠ statement.source) :
    ∃ new doc', remove text listName ids =
      .ok ⟨new, statement.source, isShared doc record⟩ ∧
      scan new listName = .ok doc' ∧
      doc.Shortens doc' (before ++ after) (if isShared doc record then doc.imports
        else is ++ is') := by
  obtain ⟨new, doc', cut, scanned', shortens⟩ :=
    orderly.exists_rest tokens scanned paired removable
  have found : doc.find id = .ok record :=
    find_eq_ok_iff.2 ⟨before, after, removable.records,
    removable.held, fun r mem => removable.others r (List.mem_append_left _ mem),
    fun r mem => removable.others r (List.mem_append_right _ mem)⟩
  refine ⟨new, doc', ?_, scanned', shortens⟩
  rw [remove_eq scanned isId found removable.companion, cut, ok_bind,
    scanText_eq scanned', ok_bind, if_pos (shortens.isRemoval removable alone)]

end Declaration

end Remove

end Showcase.Registry

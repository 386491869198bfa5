import Showcase.Proofs.Registry.Arrangement
import Showcase.Proofs.Registry.Surrogates
import Showcase.Proofs.Remaining

/-!
# Rows of a registry

A registry of the documented layout, each record of which has an import of its
own, holds a list of rows (`Holds`): the entries of its records with the sources
of their imports.  Writing a field writes one row (`Holds.setField_cases`), and
removing a record takes one row away (`Holds.remove`).  Both leave such a
registry behind.
-/

namespace Showcase

open Registry

/-- The entries of a record, and the source of its component. -/
structure Row where
  entries : List Entry
  source : Text
  deriving DecidableEq, Repr

namespace Row

def fields (row : Row) : List (Text × FieldValue) := visible row.entries

def id? (row : Row) : Option Text := idAmong row.fields

def value? (row : Row) (name : Text) : Option Text :=
  (fieldValue? name row.fields).bind FieldValue.text?

def version? (row : Row) : Option Version :=
  row.id?.map fun id =>
    ⟨id, row.value? "title".toList, row.value? "type".toList,
      row.value? "component".toList, some row.source⟩

/-- The row with a string for a field, written with the quote of the old value. -/
def write (row : Row) (name value : Text) (old : FieldValue) : Row :=
  { row with
    entries :=
      rewrite name (.string value (literalQuote old.quoteText)) row.entries }

end Row

/-! ## Lists of rows -/

namespace Rows

def find (rows : List Row) (id : List CodePoint) : Except Failure Row :=
  match (scalars? id).bind fun id => rows.find? (·.id? == some id) with
  | some row => .ok row
  | none => .error .noVersion

/-- The rows with a string for a field of one of them.  A field that is not
there is not added, and a shorthand field is not written, unless behind it the
same value shows.  A value that holds a surrogate is never written. -/
def write (rows : List Row) (id : List CodePoint) (name : Text)
    (value : List CodePoint) :
    Except Failure (List Row) := do
  let row ← find rows id
  match fieldValue? name row.fields, scalars? value with
  | none, _ => .error .noVersion
  | some _, none => .error (unspellable value)
  | some old, some value =>
      let written := row.write name value old
      if old.isString value then return rows
      else if written.value? name = some value then
        return rows.map fun other => if other.id? = row.id? then written else other
      else .error .storage

def remove (rows : List Row) (id : List CodePoint) : Except Failure (List Row) := do
  let row ← find rows id
  return rows.filter (·.id? != row.id?)

end Rows

/-! ## Registries that hold rows -/

/-- Rows that a text with these imports can hold: no two imports have the same
source, every row has an id and an import of its own, and no two have the same
id. -/
structure Sound (rows : List Row) (imports : List Import) : Prop where
  distinct : (imports.map Import.source).Nodup
  owned : ∀ row ∈ rows, sourceAmong imports (row.value? "component".toList) =
    some row.source
  sources : (rows.map Row.source).Nodup
  named : ∀ row ∈ rows, row.id?.isSome = true
  ids : (rows.map Row.id?).Nodup

/-- A registry text of the documented layout that holds some rows, with the
declaration of its list and what it is read as. -/
structure Holds (listName text : Text) (rows : List Row) (d : Declaration)
    (doc : Document) :
    Prop where
  tokens : tokenize text = .ok d.tokens
  layout : d.Layout listName
  paired : pairedReturns text = true
  elements : elementContents d.chunks = .ok (rows.map fun row => some row.entries)
  scanned : scan text listName = .ok doc
  sound : Sound rows doc.imports

private theorem Row.version?_eq {imports : List Import} {row : Row}
    (owned : sourceAmong imports (row.value? "component".toList) =
      some row.source) :
    row.version? = Version.ofFields imports row.fields := by
  unfold Row.version? Version.ofFields
  rw [← owned]
  rfl

private theorem recordsOf_some (rows : List Row) :
    recordsOf (rows.map fun row => some row.entries) = rows.map Row.fields := by
  rw [recordsOf, List.filterMap_map, ← List.filterMap_eq_map]
  rfl

namespace Holds

variable {listName text : Text} {rows : List Row} {d : Declaration} {doc : Document}

theorem records (holds : Holds listName text rows d doc) :
    doc.records.map Record.content = rows.map Row.fields := by
  obtain ⟨content, listed, view, -, -⟩ := scan_says holds.tokens holds.scanned
  rw [Declaration.tokens, holds.layout.opens.located.listContent_eq, contentOf,
    holds.elements] at listed
  cases listed
  rw [view.records, recordsOf_some]

theorem versionsOf_eq (holds : Holds listName text rows d doc) :
    versionsOf doc = rows.filterMap Row.version? := by
  rw [Showcase.versionsOf_eq, holds.records, List.filterMap_map]
  exact List.filterMap_congr fun row mem =>
    (Row.version?_eq (holds.sound.owned row mem)).symm

theorem lexed (holds : Holds listName text rows d doc) :
    Lexed 0 text d.tokens none :=
  tokenize_eq_ok_iff.1 holds.tokens

theorem imports_eq (holds : Holds listName text rows d doc) :
    importsOf (statements none 0 d.tokens) = .ok doc.imports := by
  obtain ⟨_, -, -, found, -⟩ := scan_says holds.tokens holds.scanned
  exact found

theorem arranged (holds : Holds listName text rows d doc) :
    d.Arranged listName (statements none 0 d.tokens) :=
  holds.layout.arranged holds.lexed.genuine holds.imports_eq

theorem orderly (holds : Holds listName text rows d doc) : d.Orderly listName :=
  holds.layout.orderly holds.lexed holds.imports_eq

end Holds

/-! ## One of the rows -/

private theorem ne_of_nodup_map {α β : Type} {f : α → β} {before after : List α}
    {one other : α} (distinct : ((before ++ one :: after).map f).Nodup)
    (mem : other ∈ before ++ after) :
    f other ≠ f one := by
  rw [List.map_append, List.map_cons] at distinct
  obtain ⟨-, unique, apart⟩ := List.nodup_append.1 distinct
  intro same
  rcases List.mem_append.1 mem with mem | mem
  · exact apart _ (List.mem_map_of_mem mem) _ List.mem_cons_self same
  · exact (List.nodup_cons.1 unique).1 (same ▸ List.mem_map_of_mem mem)

/-- A row among others with other ids, and its record. -/
structure Picks (rows : List Row) (doc : Document) (id : Text)
    (before : List Row) (row : Row) (after : List Row) (earlier : List Record)
    (record : Record) (later : List Record) : Prop where
  rows : rows = before ++ row :: after
  records : doc.records = earlier ++ record :: later
  earlier : earlier.map Record.content = before.map Row.fields
  content : record.content = row.fields
  later : later.map Record.content = after.map Row.fields
  here : row.id? = some id
  others : ∀ other ∈ before ++ after, other.id? ≠ some id

namespace Picks

variable {rows before after : List Row} {row : Row} {doc : Document} {id : Text}
  {earlier later : List Record} {record : Record}

theorem held (h : Picks rows doc id before row after earlier record later) :
    record.id? = some id := by
  rw [Record.id?_eq, h.content]
  exact h.here

theorem contents (h : Picks rows doc id before row after earlier record later) :
    (earlier ++ later).map Record.content = (before ++ after).map Row.fields := by
  rw [List.map_append, List.map_append, h.earlier, h.later]

theorem apart (h : Picks rows doc id before row after earlier record later) :
    ∀ r ∈ earlier ++ later, r.id? ≠ some id := by
  intro r mem
  obtain ⟨other, inside, same⟩ :=
    List.mem_map.1 (h.contents ▸ List.mem_map_of_mem mem)
  rw [Record.id?_eq, ← same]
  exact h.others other inside

theorem found (h : Picks rows doc id before row after earlier record later) :
    doc.find id = .ok record :=
  find_eq_ok_iff.2 ⟨earlier, later, h.records, h.held,
    fun r mem => h.apart r (List.mem_append_left _ mem),
    fun r mem => h.apart r (List.mem_append_right _ mem)⟩

end Picks

namespace Holds

variable {listName text : Text} {rows before after : List Row} {row : Row}
  {d : Declaration} {doc : Document} {id : Text}

theorem picks (holds : Holds listName text rows d doc)
    (split : rows = before ++ row :: after) (here : row.id? = some id) :
    ∃ earlier record later,
      Picks rows doc id before row after earlier record later := by
  have records := holds.records
  have distinct := holds.sound.ids
  rw [split, List.map_append, List.map_cons] at records
  rw [split] at distinct
  obtain ⟨earlier, rest, split', front, behind⟩ := List.map_eq_append_iff.1 records
  obtain ⟨record, later, rfl, content, back⟩ := List.map_eq_cons_iff.1 behind
  exact ⟨earlier, record, later, split, split', front, content, back, here,
    fun other mem same => ne_of_nodup_map distinct mem (same.trans here.symm)⟩

/-- A client's id names no record and no row, or one of each. -/
theorem find_cases (holds : Holds listName text rows d doc) (ids : List CodePoint) :
    (Rows.find rows ids = .error .noVersion ∧
      doc.recordOf ids = .error .noVersion) ∨
      ∃ id before row after earlier record later, scalars? ids = some id ∧
        Rows.find rows ids = .ok row ∧
        Picks rows doc id before row after earlier record later := by
  unfold Rows.find Document.recordOf
  cases isId : scalars? ids with
  | none => exact .inl ⟨rfl, rfl⟩
  | some id =>
      rw [Option.bind_some]
      cases found : rows.find? (·.id? == some id) with
      | none =>
          refine .inl ⟨rfl, ?_⟩
          have absent : ∀ r ∈ doc.records, r.id? ≠ some id := by
            intro r mem
            obtain ⟨row, inside, same⟩ :=
              List.mem_map.1 (holds.records ▸ List.mem_map_of_mem mem)
            rw [Record.id?_eq, ← same]
            exact fun same => List.find?_eq_none.1 found row inside
              (by simpa [Row.id?] using same)
          have none' : doc.records.filter (·.id? == some id) = [] :=
            List.filter_eq_nil_iff.2 fun r mem => by simpa using absent r mem
          simp [Document.record, Document.find, none', LookupError.failure]
      | some row =>
          obtain ⟨here, before, after, split, -⟩ :=
            List.find?_eq_some_iff_append.1 found
          obtain ⟨earlier, record, later, picks⟩ :=
            holds.picks split (by simpa using here)
          exact .inr ⟨id, before, row, after, earlier, record, later,
            rfl, rfl, picks⟩

end Holds

/-! ## Writing a field -/

private theorem pairedReturns_written {text : Text} {start stop : Nat}
    {c : Char} {rest : Text} (paired : pairedReturns text = true)
    (replaced : text.drop start = c :: rest) (inLine : c ≠ '\n')
    (value quoteText : Text) :
    pairedReturns (text.take start ++ quote value quoteText ++ text.drop stop) =
      true := by
  have whole : text = text.take start ++ c :: rest := by
    rw [← replaced, List.take_append_drop]
  have last : (text.take start).getLast? ≠ some '\r' := by
    rw [whole] at paired
    exact getLast?_ne_return paired inLine
  have literal (later : Text) (h : pairedReturns later = true) :
      pairedReturns (quote value quoteText ++ later) = true := by
    have inLine := quote_inLine value quoteText
    generalize quote value quoteText = literal at inLine ⊢
    induction literal with
    | nil => exact h
    | cons d literal ih =>
        have notReturn : d ≠ '\r' := by
          rintro rfl
          exact absurd (inLine '\r' List.mem_cons_self) (by decide)
        rw [List.cons_append, pairedReturns]
        · exact ih fun d mem => inLine d (List.mem_cons_of_mem _ mem)
        · exact notReturn
  rw [List.append_assoc]
  rw [whole] at paired
  exact pairedReturns_append paired
    (literal _ (pairedReturns_drop (whole ▸ paired) stop)) last

private theorem blocks_of_elements {chunks : List Chunk} (cut : Cut chunks)
    {rows : List Row}
    (h : elementContents chunks = .ok (rows.map fun row => some row.entries)) :
    ∀ chunk ∈ chunks, IsBlock chunk.tokens := by
  induction chunks generalizing rows with
  | nil => simp
  | cons chunk chunks ih =>
      rw [elementContents] at h
      split at h
      · simp at h
      obtain ⟨element, read, h⟩ := bind_eq_ok_iff.1 h
      obtain ⟨es, later, made⟩ := map_eq_ok_iff.1 h
      obtain ⟨row, rows', rfl, first, rest⟩ := List.map_eq_cons_iff.1 made.symm
      have isGroup : (groupBody? chunk.tokens).isSome = true := by
        unfold elementOf at read
        split at read
        · rw [← first] at read
          simp at read
        next inner body => simp [body]
      intro other mem
      rcases List.mem_cons.1 mem with rfl | mem
      · exact isBlock_of_groupBody? cut.balanced_head isGroup
      · exact ih cut.tail (by rw [later, ← rest]) other mem

private theorem exists_of_elements {rows before after : List Row} {row : Row}
    {es es' : List (Option (List Entry))} {entries : List Entry}
    {earlier : List Record}
    (all : (rows.map fun row => some row.entries) = es ++ some entries :: es')
    (split : rows = before ++ row :: after)
    (front : recordsOf es = earlier.map Record.content)
    (same : earlier.map Record.content = before.map Row.fields) :
    es = (before.map fun row => some row.entries) ∧ entries = row.entries ∧
      es' = after.map fun row => some row.entries := by
  obtain ⟨before', rest, rfl, rfl, behind⟩ := List.map_eq_append_iff.1 all
  obtain ⟨row', after', rfl, here, rfl⟩ := List.map_eq_cons_iff.1 behind
  rw [recordsOf_some, same] at front
  have length : before'.length = before.length := by
    simpa using congrArg List.length front
  obtain ⟨rfl, rest⟩ := List.append_inj split length
  obtain ⟨rfl, rfl⟩ := List.cons.inj rest
  exact ⟨rfl, (Option.some.inj here).symm, rfl⟩

private theorem map_source {imports imports' : List Import}
    (same : imports.map Import.content = imports'.map Import.content) :
    imports.map Import.source = imports'.map Import.source := by
  have fst := congrArg (List.map Prod.fst) same
  rw [List.map_map, List.map_map] at fst
  exact fst

/-- A text with the tokens of an arranged declaration, wherever they stand,
holds its rows. -/
theorem exists_holds {listName text : Text} {rows : List Row} {d : Declaration}
    {ts : List Token} {groups : List Statement} {imports : List Import}
    (arranged : d.Arranged listName groups) (tokens : tokenize text = .ok ts)
    (same : bare ts = bare d.tokens) (paired : pairedReturns text = true)
    (elements : elementContents d.chunks =
      .ok (rows.map fun row => some row.entries))
    (found : (importsOf (statements none 0 d.tokens)).map (·.map Import.content) =
      .ok (imports.map Import.content))
    (sound : Sound rows imports) :
    ∃ d' doc, Holds listName text rows d' doc := by
  have content : contentOf d.chunks = .ok
      ⟨rows.map fun row => some row.entries,
        (d.chunks.getLast?.bind Chunk.comma?).isSome⟩ := by
    rw [contentOf, elements]
    rfl
  obtain ⟨doc, scanned, -, imports'⟩ :=
    arranged.opens.exists_scan tokens same content found
  obtain ⟨d', rfl, moved⟩ := Declaration.exists_of_bare same
  obtain ⟨groups', arranged'⟩ := arranged.of_bare moved
  have chunks : d'.chunks.map Chunk.bare = d.chunks.map Chunk.bare :=
    congrArg Declaration.chunks moved
  refine ⟨d', doc, tokens, arranged'.layout, paired, ?_, scanned, ?_,
    fun row mem => ?_, sound.sources, sound.named, sound.ids⟩
  · rw [← elementContents_bare, chunks, elementContents_bare, elements]
  · rw [map_source imports']
    exact sound.distinct
  · rw [sourceAmong_content imports']
    exact sound.owned row mem

theorem Sound.write {rows before after : List Row} {row row' : Row}
    {imports : List Import} (sound : Sound rows imports)
    (split : rows = before ++ row :: after) (source : row'.source = row.source)
    (id : row'.id? = row.id?)
    (component : row'.value? "component".toList = row.value? "component".toList) :
    Sound (before ++ row' :: after) imports := by
  subst split
  have keep (P : Row → Prop) (all : ∀ r ∈ before ++ row :: after, P r)
      (here : P row') :
      ∀ r ∈ before ++ row' :: after, P r := by
    intro r mem
    simp only [List.mem_append, List.mem_cons] at mem
    rcases mem with mem | rfl | mem
    · exact all r (by simp [mem])
    · exact here
    · exact all r (by simp [mem])
  refine ⟨sound.distinct, keep _ sound.owned ?_, ?_, keep _ sound.named ?_, ?_⟩
  · rw [component, source]
    exact sound.owned row (by simp)
  · have sources := sound.sources
    simpa only [List.map_append, List.map_cons, source] using sources
  · rw [id]
    exact sound.named row (by simp)
  · have ids := sound.ids
    simpa only [List.map_append, List.map_cons, id] using ids

private theorem Row.write_fields {row : Row} {name other value : Text}
    {old : FieldValue} (differs : other ≠ name) :
    fieldValue? other (row.write name value old).fields = fieldValue? other
      row.fields :=
  fieldValue?_of_filter differs (visible_rewrite_filter name _ row.entries)

theorem Row.write_id? {row : Row} {name value : Text} {old : FieldValue}
    (notId : name ≠ "id".toList) :
    (row.write name value old).id? = row.id? :=
  idAmong_visible_rewrite notId _ row.entries

theorem Row.write_value? {row : Row} {name other value : Text}
    {old : FieldValue} (differs : other ≠ name) :
    (row.write name value old).value? other = row.value? other := by
  rw [Row.value?, Row.write_fields differs]
  rfl

theorem Holds.write {listName text : Text} {rows : List Row} {d : Declaration}
    {doc : Document} (holds : Holds listName text rows d doc) {id : Text}
    {before after : List Row} {row : Row} {earlier later : List Record}
    {record : Record}
    (picks : Picks rows doc id before row after earlier record later)
    {name : Text} {field : Field} (found : record.field? name = some field)
    (notId : name ≠ "id".toList) (notComponent : name ≠ "component".toList)
    (value : Text) :
    ∃ new d' doc', field.span.splice text (quote value field.value.quoteText) =
      .ok new ∧
      Holds listName new (before ++ row.write name value field.value :: after) d'
        doc' := by
  obtain ⟨new, ts, chunks, es, entries, es', trailing, written, exchanged⟩ :=
    exists_written_tokens value field.value.quoteText holds.scanned holds.tokens
      holds.layout.opens.located picks.records found
  obtain ⟨content, content', front, -, -⟩ := exchanged
  have cut := written.located.cut
  obtain ⟨c, rest, replaced, inLine⟩ := written.inLine
  rw [contentOf, holds.elements] at content
  obtain ⟨all, -⟩ := Content.mk.inj (Except.ok.inj content)
  obtain ⟨rfl, rfl, rfl⟩ := exists_of_elements all picks.rows front picks.earlier
  obtain ⟨es, elements, made⟩ := map_eq_ok_iff.1 content'
  obtain ⟨rfl, -⟩ := Content.mk.inj made
  have elements' : elementContents chunks =
      .ok ((before ++ row.write name value field.value ::
        after).map fun row => some row.entries) := by
    rw [elements]
    simp [Row.write]
  have kept : statements none 0 (Declaration.tokens { d with chunks := chunks }) =
      statements none 0 d.tokens :=
    statements_replace holds.layout.opens.pair holds.layout.opens.cut.balanced
    cut.balanced
      fun s mem inside =>
        holds.orderly.apart s mem _ inside (by simp [Declaration.body])
  obtain ⟨d', doc', holds'⟩ := exists_holds
    (holds.arranged.replace cut (blocks_of_elements cut elements'))
    written.tokenized written.same
    (written.text_eq ▸ pairedReturns_written holds.paired replaced inLine _ _)
    elements' (by rw [kept, holds.imports_eq]; rfl)
    (holds.sound.write picks.rows rfl (Row.write_id? notId)
      (Row.write_value? (Ne.symm notComponent)))
  exact ⟨new, d', doc', written.splice, holds'⟩

section Write

variable {listName text : Text} {rows before after : List Row} {row : Row}
  {d : Declaration} {doc : Document} {id : Text} {earlier later : List Record}
  {record : Record} {name : Text}

theorem Picks.fieldValue?
    (h : Picks rows doc id before row after earlier record later)
    (name : Text) :
    Registry.fieldValue? name row.fields =
      (record.field? name).map Field.value := by
  rw [← h.content, Record.field?_content]

/-- The written text is kept if the field then has the value. -/
theorem Picks.writeValue_eq
    (picks : Picks rows doc id before row after earlier record later)
    {field : Field} {value new : Text} {d' : Declaration} {doc' : Document}
    (notId : name ≠ "id".toList)
    (splice : field.span.splice doc.text (quote value field.value.quoteText) =
      .ok new)
    (holds' : Holds listName new (before ++ row.write name value field.value ::
      after) d' doc') :
    writeValue doc listName id name value field =
      if (row.write name value field.value).value? name = some value then .ok new
      else .error .storage := by
  obtain ⟨earlier', record', later', picks'⟩ :=
    holds'.picks rfl ((Row.write_id? notId).trans picks.here)
  have count : doc'.records.length = doc.records.length := by
    have front := congrArg List.length (picks'.earlier.trans picks.earlier.symm)
    have back := congrArg List.length (picks'.later.trans picks.later.symm)
    simp only [List.length_map] at front back
    rw [picks'.records, picks.records, List.length_append, List.length_append,
      List.length_cons, List.length_cons, front, back]
  have record : doc'.record id = .ok record' := mapError_eq_ok_iff.2 picks'.found
  unfold writeValue
  simp only [splice, mapError_ok, ok_bind, scanText_eq holds'.scanned, count,
    record, ne_eq, not_true_eq_false, if_false]
  rw [Record.value?_eq, picks'.content]
  rfl

theorem Picks.map_write
    (picks : Picks rows doc id before row after earlier record later)
    (row' : Row) :
    (rows.map fun other => if other.id? = row.id? then row' else other) =
      before ++ row' :: after := by
  have same (part : List Row) (among : ∀ other ∈ part, other ∈ before ++ after) :
      (part.map fun other => if other.id? = row.id? then row' else other) =
        part := by
    have each (other : Row) (mem : other ∈ part) :
        (if other.id? = row.id? then row' else other) = other :=
      if_neg fun same =>
        picks.others other (among other mem) (same.trans picks.here)
    exact (List.map_congr_left each).trans (List.map_id' part)
  rw [picks.rows, List.map_append, List.map_cons, if_pos rfl,
    same before fun other mem => by simp [mem],
    same after fun other mem => by simp [mem]]

theorem Holds.setField_cases (holds : Holds listName text rows d doc)
    (ids : List CodePoint) (notId : name ≠ "id".toList)
    (notComponent : name ≠ "component".toList) (points : List CodePoint) :
    (∃ failure, Rows.write rows ids name points = .error failure ∧
        Registry.setField text listName ids name points = .error failure) ∨
      (Rows.write rows ids name points = .ok rows ∧
        Registry.setField text listName ids name points = .ok none) ∨
      ∃ rows' new d' doc', Rows.write rows ids name points = .ok rows' ∧
        Registry.setField text listName ids name points =
          .ok (some (toPoints new)) ∧
        Holds listName new rows' d' doc' ∧
        rows'.map Row.source = rows.map Row.source := by
  unfold Rows.write
  rcases holds.find_cases ids with ⟨found, found'⟩ |
    ⟨id, before, row, after, earlier, record, later, isId, found, picks⟩
  · rw [found, Registry.setField, scanText_eq holds.scanned, ok_bind, found']
    exact .inl ⟨_, rfl, rfl⟩
  have found' : doc.recordOf ids = .ok record :=
    recordOf_eq_ok_iff.2 ⟨id, isId, picks.found⟩
  rw [found, ok_bind, picks.fieldValue?]
  cases there : record.field? name with
  | none =>
      rw [Registry.setField, scanText_eq holds.scanned, ok_bind, found',
        ok_bind, there]
      exact .inl ⟨_, rfl, rfl⟩
  | some field =>
      rw [setField_eq _ holds.scanned found' picks.held there notId]
      cases scalars? points with
      | none => exact .inl ⟨_, rfl, rfl⟩
      | some value =>
          dsimp only [Option.map_some, Option.elim_some]
          by_cases same : field.value.isString value = true
          · rw [if_pos same, if_pos same]
            exact .inr (.inl ⟨rfl, rfl⟩)
          rw [if_neg same, if_neg same]
          obtain ⟨new, d', doc', splice, holds'⟩ :=
            holds.write picks there notId notComponent value
          rw [← text_of_scan holds.scanned] at splice
          rw [picks.writeValue_eq notId splice holds', picks.map_write]
          by_cases reads : (row.write name value field.value).value? name =
            some value
          · rw [if_pos reads, if_pos reads]
            refine .inr (.inr ⟨_, new, d', doc', rfl, rfl, holds', ?_⟩)
            rw [picks.rows]
            simp [Row.write]
          · rw [if_neg reads, if_neg reads]
            exact .inl ⟨_, rfl, rfl⟩

end Write

/-! ## Removing a record -/

/-- A component keeps its source when an import with another source goes. -/
private theorem sourceAmong_other {is is' : List Import} {statement : Import}
    {component? : Option Text} {source : Text}
    (h : sourceAmong (is ++ statement :: is') component? = some source)
    (other : source ≠ statement.source) :
    sourceAmong (is ++ is') component? = some source := by
  cases component? with
  | none => simp [sourceAmong] at h
  | some binding =>
      simp only [sourceAmong, Option.bind_some] at h ⊢
      split at h
      · simp at h
      next more =>
        rw [if_neg more]
        obtain ⟨i, found, rfl⟩ := Option.map_eq_some_iff.1 h
        rw [List.find?_append] at found ⊢
        cases first : is.find? (·.names.contains binding) with
        | some j =>
            rw [first] at found
            exact congrArg (Option.map Import.source) found
        | none =>
            rw [first, Option.none_or, List.find?_cons] at found
            split at found
            · exact absurd (congrArg Import.source (Option.some.inj found)).symm
                other
            · rw [Option.none_or, found]
              rfl

theorem Sound.remove {rows before after : List Row} {row : Row}
    {imports is is' : List Import} {statement : Import}
    (sound : Sound rows imports) (split : rows = before ++ row :: after)
    (split' : imports = is ++ statement :: is')
    (source : statement.source = row.source) :
    Sound (before ++ after) (is ++ is') := by
  subst split split'
  have fewer : (before ++ after).Sublist (before ++ row :: after) :=
    (List.Sublist.refl before).append (List.sublist_cons_self row after)
  have fewer' : (is ++ is').Sublist (is ++ statement :: is') :=
    (List.Sublist.refl is).append (List.sublist_cons_self statement is')
  refine ⟨sound.distinct.sublist (fewer'.map _), fun other mem => ?_,
    sound.sources.sublist (fewer.map _),
    fun other mem => sound.named other (fewer.subset mem),
    sound.ids.sublist (fewer.map _)⟩
  exact sourceAmong_other (sound.owned other (fewer.subset mem)) fun same =>
    ne_of_nodup_map sound.sources mem (same.trans source)

section Remove

variable {listName text : Text} {rows before after : List Row} {row : Row}
  {d : Declaration} {doc : Document} {id : Text} {earlier later : List Record}
  {record : Record} {ids : List CodePoint}

theorem Picks.filter
    (picks : Picks rows doc id before row after earlier record later) :
    rows.filter (·.id? != row.id?) = before ++ after := by
  have same (part : List Row) (among : ∀ other ∈ part, other ∈ before ++ after) :
      part.filter (·.id? != row.id?) = part :=
    List.filter_eq_self.2 fun other mem => by
      simpa [picks.here] using picks.others other (among other mem)
  rw [picks.rows, List.filter_append, List.filter_cons_of_neg (by simp),
    same before fun other mem => by simp [mem], same after fun other mem => by
      simp [mem]]

theorem Holds.isShared_eq (holds : Holds listName text rows d doc)
    (picks : Picks rows doc id before row after earlier record later) :
    isShared doc record = false := by
  have sources := holds.sound.sources
  rw [picks.rows] at sources
  rw [Registry.isShared_eq holds.scanned picks.records, List.any_eq_false]
  intro r mem
  obtain ⟨other, inside, same⟩ :=
    List.mem_map.1 (picks.contents ▸ List.mem_map_of_mem mem)
  rw [Record.value?_eq, Record.value?_eq, ← same, picks.content, beq_iff_eq]
  intro component
  have among : other ∈ rows := by
    rw [picks.rows]
    simp only [List.mem_append, List.mem_cons] at inside ⊢
    tauto
  have owned := holds.sound.owned other among
  have owned' := holds.sound.owned row (by simp [picks.rows])
  rw [Row.value?, component] at owned
  exact ne_of_nodup_map sources inside (Option.some.inj (owned.symm.trans owned'))

theorem Holds.remove (holds : Holds listName text rows d doc)
    (picks : Picks rows doc id before row after earlier record later)
    (isId : scalars? ids = some id) :
    ∃ removal d' doc', Registry.remove text listName ids = .ok removal ∧
      removal.source = row.source ∧
      removal.shared = false ∧
      Holds listName removal.text (before ++ after) d' doc' := by
  have component : (doc.companionImport? record).map Import.source =
      some row.source := by
    rw [sourceAmong_component, Record.value?_eq, picks.content]
    exact holds.sound.owned row (by simp [picks.rows])
  obtain ⟨statement, companion, source⟩ := Option.map_eq_some_iff.1 component
  obtain ⟨_, _, is, is', around⟩ := exists_removable picks.found companion
  have removable : Removable doc id earlier record later is statement is' :=
    ⟨picks.records, around.imports, picks.held, picks.apart, companion⟩
  have alone : ∀ i ∈ is ++ is', i.source ≠ statement.source := by
    have distinct := holds.sound.distinct
    rw [around.imports] at distinct
    exact fun i mem => ne_of_nodup_map distinct mem
  have shared := holds.isShared_eq picks
  obtain ⟨new, _, removed, -, -⟩ :=
    holds.orderly.exists_remove holds.tokens holds.scanned holds.paired isId
    removable alone
  rw [shared] at removed
  obtain ⟨new', ts, d', es, es', entries, cut, remains⟩ :=
    holds.orderly.exists_cut holds.tokens holds.scanned holds.paired picks.records
    around.imports false
  have sameText : new' = new := by
    obtain ⟨doc', id', record', statement', scanned', isId', found',
        companion', cut', -⟩ :=
      exists_of_remove removed
    cases holds.scanned.symm.trans scanned'
    cases isId.symm.trans isId'
    cases picks.found.symm.trans found'
    cases companion.symm.trans companion'
    rw [shared] at cut'
    exact Except.ok.inj (cut.symm.trans cut')
  subst sameText
  obtain ⟨rfl, rfl, rfl⟩ := exists_of_elements
    (Except.ok.inj (holds.elements.symm.trans remains.drops.all)) picks.rows
    remains.earlier picks.earlier
  have elements : elementContents d'.chunks =
      .ok ((before ++ after).map fun row => some row.entries) := by
    rw [remains.drops.remaining, List.map_append]
  have cut' := remains.opens.cut
  obtain ⟨tokens, same, paired, ⟨ss, left⟩, -, found, -, -, -⟩ := remains
  generalize d'.chunks = chunks at left cut' elements
  cases left with
  | alone split without =>
      have arranged := holds.arranged
      rw [split] at arranged
      obtain ⟨d', doc', holds'⟩ := exists_holds
        ((arranged.without (Declaration.nodup_of_lexed holds.lexed)
          without).replace cut'
          (blocks_of_elements cut' elements)) tokens same paired elements found
        (holds.sound.remove picks.rows around.imports source)
      exact ⟨_, d', doc', removed, source, rfl, holds'⟩

end Remove

end Showcase

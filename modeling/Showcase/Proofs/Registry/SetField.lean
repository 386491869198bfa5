import Showcase.Proofs.Registry.Readers
import Showcase.Proofs.Registry.Rewrite

/-!
# Changing a field

`setField` replaces the text of one value.  All other fields keep their names, kinds
and values; what becomes of the changed one depends on how it was written
(`setField_exact`).
-/

namespace Showcase.Registry

/-! ## The record with an id -/

theorem find_eq_ok_iff {doc : Document} {id : Text} {record : Record} :
    doc.find id = .ok record ↔
      ∃ before after, doc.records = before ++ record :: after ∧
      record.id? = some id ∧
        (∀ r ∈ before, r.id? ≠ some id) ∧ ∀ r ∈ after, r.id? ≠ some id := by
  have one : doc.find id = .ok record ↔ doc.records.filter (·.id? == some id) =
      [record] := by
    unfold Document.find
    split
    next none => simp [none]
    next r found => simp [found]
    next notNone notOne =>
      constructor
      · simp
      · intro found
        exact absurd found (notOne record)
  rw [one, List.filter_eq_cons_iff]
  constructor
  · rintro ⟨before, after, split, none, here, rest⟩
    refine ⟨before, after, split, by simpa using here, ?_, ?_⟩
    · intro r mem
      simpa using none r mem
    · intro r mem
      simpa using List.filter_eq_nil_iff.1 rest r mem
  · rintro ⟨before, after, split, here, none, none'⟩
    refine ⟨before, after, split, ?_, by simpa using here,
      List.filter_eq_nil_iff.2 ?_⟩
    · intro r mem
      simpa using none r mem
    · intro r mem
      simpa using none' r mem

theorem Document.id?_of_find {doc : Document} {id : Text} {record : Record}
    (h : doc.find id = .ok record) : record.id? = some id := by
  obtain ⟨-, -, -, held, -⟩ := find_eq_ok_iff.1 h
  exact held

theorem recordOf_eq_ok_iff {doc : Document} {id : List CodePoint}
    {record : Record} :
    doc.recordOf id = .ok record ↔ ∃ id', scalars? id = some id' ∧
      doc.find id' = .ok record := by
  unfold Document.recordOf
  cases scalars? id with
  | none => simp
  | some id' => simp [Document.record, mapError_eq_ok_iff]

/-! ## The fields of a rewritten record -/

private theorem distinct_filter {name : Text} {seen : List Text} (seen' : List Text)
    (same : ∀ other, other ≠ name → (other ∈ seen ↔ other ∈ seen'))
    (pairs : List (Text × FieldValue)) :
    (distinct seen pairs).filter (·.1 != name) =
      distinct seen' (pairs.filter (·.1 != name)) := by
  induction pairs generalizing seen seen' with
  | nil => rfl
  | cons pair pairs ih =>
      by_cases here : pair.1 = name
      · have dropped : (pair :: pairs).filter (·.1 != name) =
            pairs.filter (·.1 != name) := by
          simp [here]
        rw [dropped, distinct]
        split
        · exact ih _ same
        · rw [List.filter_cons_of_neg (by simpa using here)]
          refine ih _ fun other differs => ?_
          rw [← same other differs, List.mem_cons, here]
          simp [differs]
      · rw [List.filter_cons_of_pos (by simpa using here), distinct, distinct]
        by_cases known : pair.1 ∈ seen
        · rw [if_pos (by simpa using known),
            if_pos (by simpa using (same _ here).1 known)]
          exact ih _ same
        · rw [if_neg (by simpa using known),
            if_neg (by simpa using mt (same _ here).2 known),
            List.filter_cons_of_pos (by simpa using here)]
          congr 1
          refine ih _ fun other differs => ?_
          rw [List.mem_cons, List.mem_cons, same other differs]

private theorem rewrite_filter (name : Text) (value : FieldValue)
    (entries : List Entry) :
    ((rewrite name value entries).map Entry.content).filter (·.1 != name) =
      (entries.map Entry.content).filter (·.1 != name) := by
  induction entries with
  | nil => rfl
  | cons e es ih =>
      rw [rewrite]
      split
      next here =>
        split
        · simp [Entry.content, here]
        · simp [Entry.content, here]
      next other =>
        have differs : (e.content.1 != name) = true := by
          simpa [Entry.content] using other
        rw [List.map_cons, List.map_cons, List.filter_cons, List.filter_cons,
          if_pos differs, if_pos differs, ih]

theorem visible_rewrite_filter (name : Text) (value : FieldValue)
    (entries : List Entry) :
    (visible (rewrite name value entries)).filter (·.1 != name) =
      (visible entries).filter (·.1 != name) := by
  rw [visible, visible, distinct_filter [] (by simp), distinct_filter [] (by simp),
    rewrite_filter]

theorem fieldValue?_of_filter {name other : Text} (differs : other ≠ name)
    {fields fields' : List (Text × FieldValue)}
    (same : fields.filter (·.1 != name) = fields'.filter (·.1 != name)) :
    fieldValue? other fields = fieldValue? other fields' := by
  have filtered (fields : List (Text × FieldValue)) :
      fieldValue? other fields =
        fieldValue? other (fields.filter (·.1 != name)) := by
    rw [fieldValue?, fieldValue?, List.find?_filter]
    congr 2
    funext pair
    by_cases here : pair.1 = other
    · simp [here, differs]
    · simp [here]
  rw [filtered, same, ← filtered]

private theorem ne_of_mem_distinct {name : Text} {seen : List Text}
    (known : name ∈ seen) {pairs : List (Text × FieldValue)}
    {pair : Text × FieldValue} (mem : pair ∈ distinct seen pairs) :
    pair.1 ≠ name := by
  induction pairs generalizing seen with
  | nil => simp [distinct] at mem
  | cons first pairs ih =>
      rw [distinct] at mem
      split at mem
      · exact ih known mem
      next fresh =>
        rcases List.mem_cons.1 mem with rfl | mem
        · rintro rfl
          simp [known] at fresh
        · exact ih (List.mem_cons_of_mem _ known) mem

private theorem distinct_rewrite {name : Text} {seen : List Text}
    (fresh : name ∉ seen) {entries : List Entry}
    (written : ∀ e ∈ entries.find? (·.name == name), e.shorthand = false)
    (value : FieldValue) :
    distinct seen ((rewrite name value entries).map Entry.content) =
      (distinct seen (entries.map Entry.content)).map fun pair =>
        if pair.1 = name then (name, value) else pair := by
  induction entries generalizing seen with
  | nil => rfl
  | cons e es ih =>
      rw [rewrite]
      by_cases here : e.name = name
      · have own : e.shorthand = false := written e (by simp [here])
        have rest :
            (distinct (name :: seen) (es.map Entry.content)).map (fun pair =>
            if pair.1 = name then (name, value) else pair) =
              distinct (name :: seen) (es.map Entry.content) := by
          rw [List.map_congr_left (g := id), List.map_id]
          intro pair mem
          rw [if_neg (ne_of_mem_distinct (by simp) mem)]
          rfl
        simp [here, own, distinct, Entry.content, fresh, rest]
      · have written' : ∀ e ∈ es.find? (·.name == name), e.shorthand = false := by
          simpa [here] using written
        rw [if_neg here, List.map_cons, List.map_cons, distinct, distinct]
        split
        · exact ih fresh written'
        · rw [List.map_cons,
            ih (by simp [fresh, Ne.symm here, Entry.content]) written']
          simp [Entry.content, here]

private theorem visible_rewrite {name : Text} {entries : List Entry}
    (written : ∀ e ∈ entries.find? (·.name == name), e.shorthand = false)
    (value : FieldValue) :
    visible (rewrite name value entries) =
      (visible entries).map fun pair => if pair.1 = name then (name, value) else
      pair :=
  distinct_rewrite (by simp) written value

theorem scanText_eq {text listName : Text} {doc : Document}
    (h : scan text listName = .ok doc) :
    scanText text listName = .ok doc := by
  rw [scanText, h]
  rfl

theorem idAmong_visible_rewrite {name : Text} (notId : name ≠ "id".toList)
    (value : FieldValue) (entries : List Entry) :
    idAmong (visible (rewrite name value entries)) = idAmong (visible entries) := by
  rw [idAmong, idAmong,
    fieldValue?_of_filter (Ne.symm notId)
      (visible_rewrite_filter name value entries)]

theorem id?_ne_of_content {records records' : List Record} {id : Text}
    (same : records.map Record.content = records'.map Record.content)
    (others : ∀ r ∈ records, r.id? ≠ some id) :
    ∀ r ∈ records', r.id? ≠ some id := by
  intro r mem
  obtain ⟨r', mem', content⟩ := List.mem_map.1 (same ▸ List.mem_map_of_mem mem)
  rw [Record.id?_eq, ← content, ← Record.id?_eq]
  exact others r' mem'

/-! ## Writing a text -/

/-- Whether a value is this text as a string. -/
def FieldValue.isString (fieldValue : FieldValue) (value : Text) : Bool :=
  match fieldValue with
  | string old _ => old == value
  | _ => false

theorem FieldValue.holds_toPoints (fieldValue : FieldValue) (value : Text) :
    fieldValue.holds (toPoints value) = fieldValue.isString value := by
  cases fieldValue with
  | string old quote =>
      rw [holds, isString, Bool.eq_iff_iff, beq_iff_eq, beq_iff_eq]
      exact ⟨toPoints_injective, congrArg toPoints⟩
  | name old => rfl
  | expr => rfl

theorem FieldValue.exists_of_holds {fieldValue : FieldValue}
    {value : List CodePoint} (h : fieldValue.holds value = true) :
    ∃ text, scalars? value = some text := by
  cases fieldValue with
  | string old quote => exact ⟨old, scalars?_eq_some_iff.2 (beq_iff_eq.1 h).symm⟩
  | name old => simp [holds] at h
  | expr => simp [holds] at h

/-- The text that `writeField` makes for a value that holds no surrogate. -/
def writeValue (doc : Document) (listName id field value : Text) (current : Field) :
    Except Failure Text := do
  let literal := quote value current.value.quoteText
  let new ← (current.span.splice doc.text literal).mapError .outOfText
  let check ← scanText new listName
  if check.records.length ≠ doc.records.length then .error .storage
  let record ← check.record id
  if record.value? field = some value then return new else .error .storage

private theorem splice_toPoints (text : Text) (span : Span) (new : Text) :
    span.splice (toPoints text) (toPoints new) =
      (span.splice text new).map toPoints := by
  have length : (toPoints text).length = text.length := List.length_map _
  rw [Span.splice, Span.splice, splice, splice, length]
  split
  · rw [map_ok, toPoints, toPoints, toPoints, List.map_append, List.map_append,
      List.map_take, List.map_drop]
  · rfl

theorem writeField_toPoints (doc : Document) (listName id field value : Text)
    (current : Field) :
    writeField doc listName id field (toPoints value) current =
      (writeValue doc listName id field value current).map toPoints := by
  unfold writeField writeValue
  dsimp only
  rw [quotePoints_toPoints, splice_toPoints]
  cases current.span.splice doc.text (quote value current.value.quoteText) with
  | error range => rfl
  | ok new =>
      simp only [map_ok, mapError_ok, ok_bind, scanPoints_toPoints, scanText]
      cases scan new listName with
      | error fault => rfl
      | ok check =>
          simp only [mapError_ok, ok_bind]
          split
          · rfl
          · cases check.record id with
            | error failure => rfl
            | ok record =>
                have same : (record.value? field).map toPoints =
                    some (toPoints value) ↔
                    record.value? field = some value := by
                  rw [Option.map_eq_some_iff]
                  constructor
                  · rintro ⟨shown, found, same⟩
                    rw [found, toPoints_injective same]
                  · exact fun found => ⟨value, found, rfl⟩
                simp only [ok_bind, same]
                split <;> rfl

/-- Only what holds no surrogate is written. -/
theorem exists_of_writeField {doc : Document} {listName id field : Text}
    {value new : List CodePoint} {current : Field}
    (h : writeField doc listName id field value current = .ok new) :
    ∃ text, scalars? value = some text := by
  unfold writeField at h
  obtain ⟨points, -, h⟩ := bind_eq_ok_iff.1 h
  obtain ⟨check, -, h⟩ := bind_eq_ok_iff.1 h
  split at h
  · simp at h
  · obtain ⟨record, -, h⟩ := bind_eq_ok_iff.1 h
    split at h
    next shows =>
      obtain ⟨text, -, same⟩ := Option.map_eq_some_iff.1 shows
      exact ⟨text, scalars?_eq_some_iff.2 same.symm⟩
    next => simp at h

/-! ## The written document -/

/-- A record of a document, with the records around it and the entries it is
written with. -/
structure RecordAt (listName : Text) (doc : Document) where
  before : List Record
  record : Record
  after : List Record
  entries : List Entry
  records : doc.records = before ++ record :: after
  content : record.content = visible entries
  listing : ∃ tokens es es' trailing, tokenize doc.text = .ok tokens ∧
    listContent listName tokens = .ok ⟨es ++ some entries :: es', trailing⟩ ∧
    recordsOf es = before.map Record.content ∧
    recordsOf es' = after.map Record.content

section Written

variable {text listName id name value new : Text} {doc doc' : Document}
  {record : Record} {field : Field} {before after : List Record}

/-- The text that a change would write, and what it would be read as. -/
structure Written (listName : Text) {doc : Document} (site : RecordAt listName doc)
    (name value : Text) (field : Field) (new : Text) : Prop where
  text_eq : new = doc.text.take field.span.start ++
    quote value field.value.quoteText ++ doc.text.drop field.span.stop
  splice : field.span.splice doc.text (quote value field.value.quoteText) = .ok new
  read : ∀ doc', scan new listName = .ok doc' →
    doc'.elementCount = doc.elementCount ∧ doc'.trailingComma = doc.trailingComma ∧
    (doc.Apart → doc'.imports.map Import.content = doc.imports.map Import.content) ∧
    ∃ site' : RecordAt listName doc',
      site'.before.map Record.content = site.before.map Record.content ∧
      site'.after.map Record.content = site.after.map Record.content ∧
      site'.entries = rewrite name
        (.string value (literalQuote field.value.quoteText)) site.entries
  readable : ∃ doc', scan new listName = .ok doc'

theorem exists_written_document (h : scan text listName = .ok doc)
    (split : doc.records = before ++ record :: after)
    (found : record.field? name = some field) (value : Text) :
    ∃ (site : RecordAt listName doc) (new : Text), site.before = before ∧
      site.record = record ∧
      site.after = after ∧ Written listName site name value field new := by
  obtain ⟨front, opener, chunks, closer, back, tokenized, located⟩ :=
    exists_located h
  obtain ⟨new, tokens', chunks', es, entries, es', trailing, written, exchanged⟩ :=
    exists_written_tokens value field.value.quoteText h tokenized
    located split found
  have content := located.listContent_eq.trans exchanged.old
  have content' : listContent listName tokens' = _ :=
    (listContent_congr listName written.same).trans
      (written.located.listContent_eq.trans exchanged.new)
  have tokenized' := written.tokenized
  obtain ⟨_, found'⟩ := written.readable
  obtain rfl := text_of_scan h
  refine ⟨⟨before, record, after, entries, split, exchanged.content.symm, _, es,
    es', trailing, tokenized,
    content, exchanged.earlier, exchanged.later⟩, new, rfl, rfl, rfl,
    written.text_eq, written.splice, ?_, ?_⟩
  · intro doc' scanned
    obtain ⟨c, read, view, -⟩ := scan_says tokenized h
    rw [content] at read
    cases read
    obtain ⟨c, read, view', found, -⟩ := scan_says tokenized' scanned
    rw [content'] at read
    cases read
    obtain ⟨before', record', after', shape, front, here, back⟩ :=
      view'.exists_record
    rw [← text_of_scan scanned] at tokenized'
    refine ⟨?_, view'.trailing.trans view.trailing.symm, ?_,
      ⟨before', record', after', _, shape, here,
      tokens', es, es', trailing, tokenized', content', front.symm, back.symm⟩,
      front.trans exchanged.earlier, back.trans exchanged.later, rfl⟩
    · rw [view'.count, view.count]
      simp
    · intro apart
      have := written.imports_eq h tokenized located apart
      rw [found] at this
      exact Except.ok.inj this
  · obtain ⟨doc', scanned, -⟩ :=
      exists_scan tokenized' (written.located.balanced.of_bare written.same)
      content' found'
    exact ⟨doc', scanned⟩

theorem find_rewritten {site : RecordAt listName doc}
    {site' : RecordAt listName doc'} {fieldValue : FieldValue}
    (here : site.record.id? = some id)
    (others : (∀ r ∈ site.before, r.id? ≠ some id) ∧ ∀ r ∈ site.after,
      r.id? ≠ some id)
    (notId : name ≠ "id".toList)
    (front : site'.before.map Record.content = site.before.map Record.content)
    (back : site'.after.map Record.content = site.after.map Record.content)
    (entries : site'.entries = rewrite name fieldValue site.entries) :
    doc'.find id = .ok site'.record := by
  have id' : site'.record.id? = some id := by
    rw [Record.id?_eq, site'.content, entries, idAmong_visible_rewrite notId,
      ← site.content, ← Record.id?_eq, here]
  exact find_eq_ok_iff.2 ⟨site'.before, site'.after, site'.records, id',
    id?_ne_of_content front.symm others.1, id?_ne_of_content back.symm others.2⟩

theorem Written.writeValue_eq {site : RecordAt listName doc}
    {site' : RecordAt listName doc'}
    (written : Written listName site name value field new)
    (here : site.record.id? = some id)
    (others : (∀ r ∈ site.before, r.id? ≠ some id) ∧ ∀ r ∈ site.after,
      r.id? ≠ some id)
    (notId : name ≠ "id".toList) (scanned : scan new listName = .ok doc')
    (front : site'.before.map Record.content = site.before.map Record.content)
    (back : site'.after.map Record.content = site.after.map Record.content)
    (entries : site'.entries = rewrite name
      (.string value (literalQuote field.value.quoteText)) site.entries) :
    writeValue doc listName id name value field =
      if site'.record.value? name = some value then .ok new else
        .error .storage := by
  have found' := find_rewritten here others notId front back entries
  have count : doc'.records.length = doc.records.length := by
    have front := congrArg List.length front
    have back := congrArg List.length back
    simp only [List.length_map] at front back
    rw [site'.records, site.records]
    simp only [List.length_append, List.length_cons]
    omega
  have record : doc'.record id = .ok site'.record := mapError_eq_ok_iff.2 found'
  unfold writeValue
  simp only [written.splice, mapError_ok, ok_bind, scanText_eq scanned, count,
    record, ne_eq, not_true_eq_false, if_false]
  rfl

private theorem Written.writeValue_of_error {site : RecordAt listName doc}
    {fault : Fault} (written : Written listName site name value field new)
    (unread : scan new listName = .error fault) :
    writeValue doc listName id name value field = .error (.registry fault) := by
  have unread' : scanText new listName = .error (.registry fault) := by
    rw [scanText, unread]; rfl
  unfold writeValue
  simp only [written.splice, mapError_ok, ok_bind, unread']
  rfl

end Written

/-! ## The changed field -/

theorem FieldValue.text?_of_isString {value : FieldValue} {text : Text}
    (h : value.isString text = true) :
    value.text? = some text := by
  cases value with
  | string old quote => exact congrArg some (by simpa [isString] using h)
  | name old => simp [isString] at h
  | expr => simp [isString] at h

/-- Whether a second field of a name would show if the first were gone, and is a
plain name: a literal in place of a shorthand field is no field. -/
def exposesName (name : Text) (entries : List Entry) : Bool :=
  match entries.filter (·.name == name) with
  | ⟨_, _, true⟩ :: ⟨_, .name _, _⟩ :: _ => true
  | _ => false

theorem find?_rewrite (name : Text) (value : FieldValue) (entries : List Entry) :
    (rewrite name value entries).find? (·.name == name) =
      match entries.filter (·.name == name) with
      | [] => none
      | entry :: more => if entry.shorthand then more.head? else
          some ⟨name, value, false⟩ := by
  induction entries with
  | nil => rfl
  | cons entry entries ih =>
      rw [rewrite]
      by_cases here : entry.name = name
      · rw [if_pos here, List.filter_cons_of_pos (by simpa using here)]
        dsimp only
        split
        · rw [List.head?_filter]
        · simp
      · rw [if_neg here, List.filter_cons_of_neg (by simpa using here),
          List.find?_cons_of_neg (by simpa using here), ih]

/-- If the field has the value, then as a string, unless a second field shows. -/
theorem string_iff_exposesName {name value : Text} {q : Char}
    {entries : List Entry}
    (reads :
      (fieldValue? name (visible (rewrite name (.string value q) entries))).bind
      FieldValue.text? = some value) :
    (∃ quote, fieldValue? name (visible (rewrite name (.string value q) entries)) =
      some (.string value quote)) ↔ exposesName name entries = false := by
  simp only [fieldValue?_visible, find?_rewrite, exposesName] at reads ⊢
  generalize entries.filter (·.name == name) = same at reads ⊢
  obtain _ | ⟨⟨_, _, shorthand⟩, rest⟩ := same
  · simp at reads
  cases shorthand with
  | false => simp
  | true =>
      obtain _ | ⟨⟨_, second, _⟩, rest⟩ := rest
      · simp at reads
      cases second with
      | string _ _ => simpa [FieldValue.text?] using reads
      | name _ => simp
      | expr => simp [FieldValue.text?] at reads

/-- What a changed field leaves of a document: all else stays. -/
structure FieldChange {listName : Text} {old new : Document}
    (site : RecordAt listName old) (site' : RecordAt listName new)
    (name value : Text) : Prop where
  elementCount : new.elementCount = old.elementCount
  trailingComma : new.trailingComma = old.trailingComma
  before : site'.before.map Record.content = site.before.map Record.content
  after : site'.after.map Record.content = site.after.map Record.content
  others : site'.record.content.filter (·.1 != name) =
    site.record.content.filter (·.1 != name)
  value_eq : site'.record.value? name = some value
  isString : (∃ quote, (site'.record.field? name).map Field.value =
    some (.string value quote)) ↔
    exposesName name site.entries = false
  order : (∀ e ∈ site.entries.find? (·.name == name), e.shorthand = false) →
    ∃ quote, site'.record.content = site.record.content.map fun pair =>
      if pair.1 = name then (name, .string value quote) else pair
  imports : old.Apart →
    new.imports.map Import.content = old.imports.map Import.content

section Change

variable {text listName name new : Text} {id value : List CodePoint}
  {old : Document}

theorem setField_eq_ok_iff (scanned : scan text listName = .ok old)
    {edit : Option (List CodePoint)} :
    setField text listName id name value = .ok edit ↔
      ∃ id' value' record field, scalars? id = some id' ∧
      old.find id' = .ok record ∧
        scalars? value = some value' ∧ record.field? name = some field ∧
        ((field.value.isString value' = true ∧ edit = none) ∨
          (field.value.isString value' = false ∧
            ∃ new, writeValue old listName id' name value' field = .ok new ∧
              edit = some (toPoints new))) := by
  unfold setField
  rw [scanText_eq scanned, ok_bind]
  constructor
  · intro h
    obtain ⟨record, isRecord, rest⟩ := bind_eq_ok_iff.1 h
    obtain ⟨id', ids, found⟩ := recordOf_eq_ok_iff.1 isRecord
    have here := Document.id?_of_find found
    cases current : record.field? name with
    | none => simp [current] at rest
    | some field =>
        simp only [current, here] at rest
        split at rest
        next same =>
          cases rest
          obtain ⟨value', values⟩ := FieldValue.exists_of_holds same
          obtain rfl := scalars?_eq_some_iff.1 values
          rw [FieldValue.holds_toPoints] at same
          exact ⟨id', value', record, field, ids, found, values, current,
            .inl ⟨same, rfl⟩⟩
        next differs =>
          obtain ⟨points, wrote, rfl⟩ := map_eq_ok_iff.1 rest
          obtain ⟨value', values⟩ := exists_of_writeField wrote
          obtain rfl := scalars?_eq_some_iff.1 values
          rw [writeField_toPoints] at wrote
          obtain ⟨new, made, rfl⟩ := map_eq_ok_iff.1 wrote
          rw [FieldValue.holds_toPoints] at differs
          exact ⟨id', value', record, field, ids, found, values, current,
            .inr ⟨by simpa using differs, new, made, rfl⟩⟩
  · rintro ⟨id', value', record, field, ids, found, values, current, rest⟩
    have here := Document.id?_of_find found
    obtain rfl := scalars?_eq_some_iff.1 values
    rw [recordOf_eq_ok_iff.2 ⟨id', ids, found⟩, ok_bind]
    simp only [current, here, FieldValue.holds_toPoints, writeField_toPoints]
    obtain ⟨same, rfl⟩ | ⟨differs, new, wrote, rfl⟩ := rest
    · rw [if_pos same]
      rfl
    · rw [if_neg (by simp [differs]), wrote, map_ok, map_ok]

/-- What is to be written holds no surrogate. -/
theorem exists_of_setField {points : List CodePoint}
    (h : setField text listName id name value = .ok (some points)) :
    ∃ new, points = toPoints new := by
  cases scanned : scan text listName with
  | error fault =>
      rw [setField, scanText, scanned] at h
      simp at h
  | ok old =>
      obtain ⟨-, -, -, -, -, -, -, -, ⟨-, same⟩ | ⟨-, new, -, same⟩⟩ :=
        (setField_eq_ok_iff scanned).1 h
      · simp at same
      · exact ⟨new, Option.some.inj same⟩

/-- A text that is the old one but for the value of a field, and what it is read
as. -/
def Rewrites (text listName : Text) (old : Document) (id : List CodePoint)
    (name : Text) (value : List CodePoint) (new : Text) : Prop :=
  ∃ id' value' field doc,
    ∃ (site : RecordAt listName old) (site' : RecordAt listName doc),
    scalars? id = some id' ∧ scalars? value = some value' ∧
      old.find id' = .ok site.record ∧
      site.record.field? name = some field ∧ field.value.isString value' = false ∧
      new = text.take field.span.start ++ quote value' field.value.quoteText ++
        text.drop field.span.stop ∧
      scan new listName = .ok doc ∧ FieldChange site site' name value'

theorem rewrites_of_setField (scanned : scan text listName = .ok old)
    (notId : name ≠ "id".toList)
    (h : setField text listName id name value = .ok (some (toPoints new))) :
    Rewrites text listName old id name value new := by
  obtain ⟨id', value', record, field, ids, found, values, current, rest⟩ :=
    (setField_eq_ok_iff scanned).1 h
  obtain ⟨-, same⟩ | ⟨differs, new', wrote, same⟩ := rest
  · simp at same
  obtain rfl := toPoints_injective (Option.some.inj same)
  obtain ⟨before, after, split, here, others⟩ := find_eq_ok_iff.1 found
  obtain ⟨site, new', rfl, rfl, rfl, written⟩ :=
    exists_written_document scanned split current value'
  cases read : scan new' listName with
  | error fault =>
      rw [written.writeValue_of_error read] at wrote
      simp at wrote
  | ok doc =>
      obtain ⟨count, trailing, imports, site', front, back, entries⟩ :=
        written.read doc read
      rw [written.writeValue_eq here others notId read front back entries] at wrote
      split at wrote
      next reads =>
        cases wrote
        have text_eq := written.text_eq
        rw [text_of_scan scanned] at text_eq
        refine ⟨id', value', field, doc, site, site', ids, values, found, current,
          differs, text_eq,
          read, count, trailing, front, back, ?_, reads, ?_, ?_, imports⟩
        · rw [site'.content, site.content, entries, visible_rewrite_filter]
        · rw [Record.value?_eq, site'.content, entries] at reads
          rw [Record.field?_content, site'.content, entries]
          exact string_iff_exposesName reads
        · intro own
          exact ⟨_,
            by rw [site'.content, site.content, entries, visible_rewrite own]⟩
      next => simp at wrote

end Change

end Showcase.Registry

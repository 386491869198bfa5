import Mathlib.Data.List.Pairwise
import Showcase.Proofs.Registry.LineEndRegions
import Showcase.Proofs.Registry.Reach
import Showcase.Proofs.Registry.Resizing

/-!
# Two edits of a text

Edits of two different fields give the same text in either order
(`setText_comm`), and of two edits of one field only the second counts, unless a
shorthand field hides another of its name that is a plain name
(`setText_overwrites`).
-/

namespace Showcase.Registry

/-! ## Two replacements -/

section Written

variable {text x y : Text} {first second : Span}

private theorem written_append (left mid right literal : Text) {span : Span}
    (start : span.start = left.length)
    (stop : span.stop = (left ++ mid).length) :
    written (left ++ (mid ++ right)) span literal = left ++ (literal ++ right) := by
  rw [written, start, stop, List.take_left, ← List.append_assoc left mid,
    List.drop_left, List.append_assoc]

/-- Two replacements in a text, the second one where it has moved to, in either
order. -/
private theorem written_comm (ordered : first.start < first.stop)
    (ordered' : second.start < second.stop) (inside : second.stop ≤ text.length)
    (ahead : first.stop ≤ second.start) (x y : Text) :
    written (written text first x) (Span.resized first x.length second) y =
      written (written text second y) (Span.resized second y.length first) x := by
  obtain ⟨between, new, -, -, left, mid, right, shape, start, start', -⟩ :=
    Span.exists_splicesBoth (Nat.le_of_lt ordered) ahead (Nat.le_of_lt ordered')
    inside x y
  have size := Span.length_slice
    (Nat.le_trans (Nat.le_trans ahead (Nat.le_of_lt ordered')) inside)
  have size' := Span.length_slice inside
  generalize first.slice text = a at *
  generalize second.slice text = b at *
  subst shape
  simp only [List.length_append] at start start' size size'
  have firstly : written (left ++ (a ++ (mid ++ (b ++ right)))) first x =
      left ++ (x ++ (mid ++ (b ++ right))) :=
    written_append _ _ _ _ start.symm (by rw [List.length_append]; omega)
  have thenSecond : written (left ++ (x ++ mid) ++ (b ++ right))
      (Span.resized first x.length second) y =
        left ++ (x ++ mid) ++ (y ++ right) := by
    refine written_append _ _ _ _ ?_ ?_ <;> rw [Span.resized] <;> dsimp only <;>
      rw [if_neg (by omega)] <;> simp only [List.length_append] <;> omega
  have secondly : written (left ++ (a ++ mid) ++ (b ++ right)) second y =
      left ++ (a ++ mid) ++ (y ++ right) := by
    refine written_append _ _ _ _ ?_ ?_ <;> simp only [List.length_append] <;> omega
  have thenFirst : written (left ++ (a ++ (mid ++ (y ++ right))))
      (Span.resized second y.length first) x =
        left ++ (x ++ (mid ++ (y ++ right))) := by
    refine written_append _ _ _ _ ?_ ?_ <;> rw [Span.resized] <;> dsimp only
    · rw [if_pos (by omega), start]
    · rw [if_pos (by omega), List.length_append]
      omega
  simp only [List.append_assoc] at thenSecond secondly
  rw [firstly, thenSecond, secondly, thenFirst]

private theorem written_written (ordered : first.start ≤ first.stop)
    (inside : first.stop ≤ text.length) (x y : Text) :
    written (written text first x) ⟨first.start, first.start + x.length⟩ y =
      written text first y := by
  have start : (text.take first.start).length = first.start :=
    List.length_take_of_le (by omega)
  have again : written (text.take first.start ++ (x ++ text.drop first.stop))
      ⟨first.start, first.start + x.length⟩ y = text.take first.start ++
        (y ++ text.drop first.stop) :=
    written_append _ _ _ _ start.symm (by rw [List.length_append, start])
  have shape (literal : Text) : written text first literal =
      text.take first.start ++ (literal ++ text.drop first.stop) := by
    rw [written, List.append_assoc]
  rw [shape, again, shape]

end Written

/-! ## One edit -/

/-- The text after an edit that may have nothing to write. -/
def setText (text listName : Text) (id : List CodePoint) (name : Text)
    (value : List CodePoint) :
    Except Failure (List CodePoint) :=
  (setField text listName id name value).map (·.getD (toPoints text))

/-- A text with the value of a field, which is not written if it is there
already. -/
def Field.edited (field : Field) (value text : Text) : Text :=
  if field.value.isString value then text
  else written text field.span (quote value field.value.quoteText)

/-- Where the rest of the text moves. -/
def Field.shift (field : Field) (value : Text) (span : Span) : Span :=
  if field.value.isString value then span
  else Span.resized field.span (quote value field.value.quoteText).length span

/-- What a successful edit comes to: the field is found, gets the value and is
read with it. -/
structure Edit (listName : Text) (doc : Document) (id name value : Text)
    (field : Field) (new : Text) :
    Prop where
  has : doc.HasField id name field
  text_eq : new = field.edited value doc.text
  reads : ∃ doc' field', scan new listName = .ok doc' ∧
    doc'.HasField id name field' ∧
    field'.value.text? = some value

section Edit

variable {text listName name id value new : Text} {ids points : List CodePoint}
  {doc : Document} {field : Field}

private theorem exists_of_splice {span : Span} {literal : Text}
    (h : span.splice text literal = .ok new) :
    new = written text span literal := by
  obtain ⟨ordered, inside⟩ := Span.bounds_of_splice h
  rw [Span.splice_eq_ok literal ordered inside] at h
  exact (Except.ok.inj h).symm

private theorem exists_of_writeValue
    (h : writeValue doc listName id name value field = .ok new) :
    new = written doc.text field.span (quote value field.value.quoteText) ∧
      ∃ doc' field', scan new listName = .ok doc' ∧ doc'.HasField id name field' ∧
        field'.value.text? = some value := by
  unfold writeValue at h
  obtain ⟨after, spliced, rest⟩ := bind_eq_ok_iff.1 h
  obtain ⟨doc', scanned, rest⟩ := bind_eq_ok_iff.1 rest
  split at rest
  · simp at rest
  obtain ⟨record, found, rest⟩ := bind_eq_ok_iff.1 rest
  split at rest
  next reads =>
    cases rest
    obtain ⟨field', current, shown⟩ := Option.bind_eq_some_iff.1 reads
    exact ⟨exists_of_splice (mapError_eq_ok_iff.1 spliced), doc', field',
      mapError_eq_ok_iff.1 scanned,
      ⟨record, mapError_eq_ok_iff.1 found, current⟩, shown⟩
  next => simp at rest

private theorem exists_of_setText
    (h : setText text listName ids name points = .ok (toPoints new)) :
    ∃ doc id value field, scan text listName = .ok doc ∧ scalars? ids = some id ∧
      scalars? points = some value ∧ Edit listName doc id name value field new := by
  obtain ⟨edit, set, made⟩ := map_eq_ok_iff.1 h
  cases scanned : scan text listName with
  | error fault =>
      rw [setField, scanText, scanned] at set
      simp at set
  | ok doc =>
      obtain rfl := text_of_scan scanned
      obtain ⟨id, value, record, field, isId, found, isValue, current, rest⟩ :=
        (setField_eq_ok_iff scanned).1 set
      have has : doc.HasField id name field := ⟨record, found, current⟩
      refine ⟨doc, id, value, field, rfl, isId, isValue, ?_⟩
      obtain ⟨stored, rfl⟩ | ⟨differs, after, wrote, rfl⟩ := rest
      · obtain rfl := toPoints_injective made
        have kept : field.edited value doc.text = doc.text := by
          rw [Field.edited, if_pos stored]
        exact ⟨has, kept.symm, doc, field, scanned, has,
          FieldValue.text?_of_isString stored⟩
      · obtain rfl := toPoints_injective made
        obtain ⟨text_eq, reads⟩ := exists_of_writeValue wrote
        have wrote : field.edited value doc.text =
            written doc.text field.span (quote value field.value.quoteText) := by
          rw [Field.edited, if_neg (by simp [differs])]
        exact ⟨has, text_eq.trans wrote.symm, reads⟩

private theorem exists_edit
    (h : setText text listName ids name points = .ok (toPoints new))
    (scanned : scan text listName = .ok doc) (isId : scalars? ids = some id)
    (isValue : scalars? points = some value) :
    ∃ field, Edit listName doc id name value field new := by
  obtain ⟨doc', id', value', field, scanned', isId', isValue', edit⟩ :=
    exists_of_setText h
  obtain rfl := Except.ok.inj (scanned.symm.trans scanned')
  obtain rfl := Option.some.inj (isId.symm.trans isId')
  obtain rfl := Option.some.inj (isValue.symm.trans isValue')
  exact ⟨field, edit⟩

/-- An edit moves all fields but the one it is about. -/
private theorem Edit.exists_others
    (edit : Edit listName doc id name value field new)
    (scanned : scan doc.text listName = .ok doc) (notId : name ≠ "id".toList) :
    ∃ doc', scan new listName = .ok doc' ∧ ∀ id' name' field',
      doc.HasField id' name' field' →
      id' ≠ id ∨ name' ≠ name →
      doc'.HasField id' name' (field'.moved (field.shift value)) := by
  obtain ⟨doc', -, scanned', -⟩ := edit.reads
  refine ⟨doc', scanned', ?_⟩
  have text_eq := edit.text_eq
  unfold Field.edited at text_eq
  unfold Field.shift
  split at text_eq
  next stored =>
    obtain rfl := Except.ok.inj (scanned.symm.trans (text_eq ▸ scanned'))
    simp only [stored, if_true]
    exact fun _ _ _ has _ => has
  next differs =>
    obtain ⟨own, second?, -, resized⟩ := exists_resized scanned edit.has notId
    rw [text_eq] at scanned'
    simp only [differs]
    exact (resized _ _ _ scanned').1

end Edit

/-! ## Two fields of a text -/

section Fields

variable {text listName id id' name name' : Text} {doc : Document}
  {field field' : Field}

private theorem apart_of_pairwise {α : Type} {span : α → Span} {xs : List α}
    {x y : α} (row : xs.Pairwise fun x y => (span x).stop ≤ (span y).start)
    (mem : x ∈ xs) (mem' : y ∈ xs) (differs : x ≠ y) : (span x).Apart (span y) := by
  have : Std.Symm fun x y : α => (span x).Apart (span y) := ⟨fun _ _ => Or.symm⟩
  exact (row.imp (S := fun x y => (span x).Apart (span y)) .inl).forall
    mem mem' differs

private theorem exists_record_placed {record : Record}
    (scanned : scan text listName = .ok doc) (mem : record ∈ doc.records) :
    ∃ list body, record.Placed text list body := by
  obtain ⟨front, opener, chunks, closer, back, tokenized, located⟩ :=
    exists_located scanned
  rw [scan_eq tokenized located] at scanned
  obtain ⟨elements, read, rest⟩ := bind_eq_ok_iff.1 scanned
  obtain ⟨imports, -, rfl⟩ := map_eq_ok_iff.1 rest
  exact ⟨_, _,
    records_placed (tokenize_eq_ok_iff.1 tokenized) located read record mem⟩

private theorem Document.HasField.exists_placed
    (scanned : scan text listName = .ok doc)
    (has : doc.HasField id name field) :
    ∃ record ∈ doc.records, doc.find id = .ok record ∧
      record.field? name = some field ∧ field ∈ record.fields ∧
      field.Placed text record.span := by
  obtain ⟨record, found, current⟩ := has
  obtain ⟨before, after, split, -⟩ := find_eq_ok_iff.1 found
  have mem : record ∈ doc.records := by simp [split]
  obtain ⟨list, body, placed⟩ := exists_record_placed scanned mem
  have inside := List.mem_of_find?_eq_some current
  exact ⟨record, mem, found, current, inside, placed.fields field inside⟩

/-- Fields of different records and different fields of one record do not
overlap. -/
theorem Document.HasField.apart (scanned : scan text listName = .ok doc)
    (has : doc.HasField id name field) (has' : doc.HasField id' name' field')
    (differs : id ≠ id' ∨ name ≠ name') : field.span.Apart field'.span := by
  obtain ⟨record, mem, found, current, inside, placed⟩ := has.exists_placed scanned
  obtain ⟨record', mem', found', current', inside', placed'⟩ :=
    has'.exists_placed scanned
  by_cases same : record = record'
  · subst same
    have names : name ≠ name' := differs.resolve_left fun ne => ne <|
      Option.some.inj
      ((Document.id?_of_find found).symm.trans (Document.id?_of_find found'))
    obtain ⟨list, body, row⟩ := exists_record_placed scanned mem
    refine apart_of_pairwise row.fieldsApart inside inside' ?_
    rintro rfl
    exact names ((Record.name_of_field? current).symm.trans
      (Record.name_of_field? current'))
  · have apart := apart_of_pairwise (pairwise_records scanned).1 mem mem' same
    have within := placed.inside
    have within' := placed'.inside
    rcases apart with ahead | behind
    · exact .inl (by omega)
    · exact .inr (by omega)

private theorem edited_comm {value value' : Text}
    (scanned : scan text listName = .ok doc) (has : doc.HasField id name field)
    (has' : doc.HasField id' name' field') (differs : id ≠ id' ∨ name ≠ name') :
    (field'.moved (field.shift value)).edited value' (field.edited value text) =
      (field.moved (field'.shift value')).edited value
      (field'.edited value' text) := by
  obtain ⟨ordered, inside⟩ := has.bounds scanned
  obtain ⟨ordered', inside'⟩ := has'.bounds scanned
  simp only [Field.edited, Field.shift, Field.moved]
  by_cases stored : field.value.isString value = true
  · simp [stored]
  by_cases stored' : field'.value.isString value' = true
  · simp [stored']
  simp only [stored, stored']
  rcases has.apart scanned has' differs with ahead | behind
  · exact written_comm ordered ordered' inside' ahead _ _
  · exact (written_comm ordered' ordered inside behind _ _).symm

end Fields

/-- Two edits of different fields give one text in either order. -/
theorem setText_comm {text listName name name' one other both both' : Text}
    {ids ids' points points' : List CodePoint} (notId : name ≠ "id".toList)
    (notId' : name' ≠ "id".toList) (differs : ids ≠ ids' ∨ name ≠ name')
    (first : setText text listName ids name points = .ok (toPoints one))
    (second : setText one listName ids' name' points' = .ok (toPoints both))
    (first' : setText text listName ids' name' points' = .ok (toPoints other))
    (second' : setText other listName ids name points = .ok (toPoints both')) :
    both = both' := by
  obtain ⟨doc, id, value, field, scanned, isId, isValue, edit⟩ :=
    exists_of_setText first
  obtain ⟨doc', id', value', field', scanned', isId', isValue', edit'⟩ :=
    exists_of_setText first'
  obtain rfl := Except.ok.inj (scanned.symm.trans scanned')
  obtain rfl := text_of_scan scanned
  have apart : id ≠ id' ∨ name ≠ name' := by
    refine differs.imp_left fun ne => ?_
    rintro rfl
    exact ne
      ((scalars?_eq_some_iff.1 isId).trans (scalars?_eq_some_iff.1 isId').symm)
  obtain ⟨doc₁, scanned₁, others⟩ := edit.exists_others scanned notId
  obtain ⟨doc₂, scanned₂, others'⟩ := edit'.exists_others scanned notId'
  obtain ⟨field₁, edit₁⟩ := exists_edit second scanned₁ isId' isValue'
  obtain ⟨field₂, edit₂⟩ := exists_edit second' scanned₂ isId isValue
  obtain rfl :=
    edit₁.has.unique (others _ _ _ edit'.has (apart.imp Ne.symm Ne.symm))
  obtain rfl := edit₂.has.unique (others' _ _ _ edit.has apart)
  rw [edit₁.text_eq, edit₂.text_eq, text_of_scan scanned₁, text_of_scan scanned₂,
    edit.text_eq, edit'.text_eq]
  exact edited_comm scanned edit.has edit'.has apart

/-! ## Two edits of one field -/

private theorem quoteChar_ne_nil (q c : Char) : quoteChar q c ≠ [] := by
  unfold quoteChar
  split
  · simp
  · split
    case h_7 => split <;> simp
    all_goals simp

private theorem length_lt_quote (value quoteText : Text) :
    value.length < (quote value quoteText).length := by
  have grows : value.length ≤
      (value.flatMap (quoteChar (literalQuote quoteText))).length := by
    induction value with
    | nil => exact Nat.le_refl 0
    | cons c value ih =>
        obtain ⟨d, rest, shape⟩ := List.exists_cons_of_ne_nil
          (quoteChar_ne_nil (literalQuote quoteText) c)
        rw [List.flatMap_cons, shape]
        simp only [List.length_append, List.length_cons]
        omega
  rw [quote]
  simp only [List.cons_append, List.length_cons, List.length_append]
  omega

private theorem quote_literalQuote (value quoteText : Text) :
    quote value [literalQuote quoteText] = quote value quoteText := by
  have same : literalQuote [literalQuote quoteText] = literalQuote quoteText := by
    rcases literalQuote_cases quoteText with q | q <;> rw [q] <;> rfl
  rw [quote, quote, same]

section Overwriting

variable {text listName name id value new : Text} {doc : Document} {field : Field}

/-- An edit that gives a field the value it shows changes nothing if the value
is a string. -/
private theorem edited_eq_self_iff (scanned : scan text listName = .ok doc)
    (has : doc.HasField id name field)
    (shown : field.value.text? = some value) :
    field.edited value text = text ↔ field.value.isString value = true := by
  constructor
  · intro same
    by_contra differs
    have plain : field.value = .name value := by
      cases held : field.value with
      | string old quote => simp_all [FieldValue.text?, FieldValue.isString]
      | name old => simpa [held, FieldValue.text?] using shown
      | expr => simp [held, FieldValue.text?] at shown
    obtain ⟨ordered, inside⟩ := has.bounds scanned
    obtain ⟨record, -, -, -, -, placed⟩ := has.exists_placed scanned
    have spelled := placed.spelled
    rw [plain] at spelled
    have size := Span.length_slice inside
    rw [show field.span.slice text = value from spelled] at size
    have longer := length_lt_quote value field.value.quoteText
    have lengths := congrArg List.length same
    rw [Field.edited, if_neg differs, written] at lengths
    simp only [List.length_append, List.length_take, List.length_drop] at lengths
    omega
  · intro stored
    rw [Field.edited, if_pos stored]

private theorem Edit.text?_eq {doc' : Document} {field' : Field}
    (edit : Edit listName doc id name value field new)
    (scanned' : scan new listName = .ok doc')
    (has' : doc'.HasField id name field') :
    field'.value.text? = some value := by
  obtain ⟨doc₁, field₁, scanned₁, has₁, shown⟩ := edit.reads
  obtain rfl := Except.ok.inj (scanned₁.symm.trans scanned')
  rwa [has'.unique has₁]

theorem Edit.wrote (edit : Edit listName doc id name value field new)
    (fresh : field.value.isString value = false) :
    new = written doc.text field.span (quote value field.value.quoteText) := by
  rw [edit.text_eq, Field.edited, if_neg (by simp [fresh])]

private theorem Edit.exists_site (edit : Edit listName doc id name value field new)
    (scanned : scan doc.text listName = .ok doc) (notId : name ≠ "id".toList)
    (fresh : field.value.isString value = false) :
    ∃ site : RecordAt listName doc, doc.find id = .ok site.record ∧
      ∀ doc' field', scan new listName = .ok doc' → doc'.HasField id name field' →
        (field'.value.isString value = true ↔
          exposesName name site.entries = false) := by
  obtain ⟨record, found, current⟩ := edit.has
  obtain ⟨before, after, split, isId, others⟩ := find_eq_ok_iff.1 found
  obtain ⟨site, new', rfl, rfl, rfl, written⟩ :=
    exists_written_document scanned split current value
  refine ⟨site, found, fun doc' field' scanned' has' => ?_⟩
  obtain rfl : new = new' := by
    rw [edit.wrote fresh, written.text_eq]
    rfl
  obtain ⟨-, -, -, site', front, back, entries⟩ := written.read doc' scanned'
  have found' := find_rewritten isId others notId front back entries
  have current' := has'.field?_eq found'
  have shown : site'.record.value? name = some value := by
    rw [Record.value?, current']
    exact edit.text?_eq scanned' has'
  rw [Record.value?_eq, site'.content, entries] at shown
  rw [← string_iff_exposesName shown, ← entries, ← site'.content,
    ← Record.field?_content, current']
  cases held : field'.value <;> simp [held, FieldValue.isString]

private theorem edited_edited (ordered : field.span.start ≤ field.span.stop)
    (inside : field.span.stop ≤ new.length) (value value' quoteText : Text) :
    (⟨name, .string value (literalQuote quoteText), ⟨field.span.start,
        field.span.start + (quote value quoteText).length⟩⟩ : Field).edited value'
          (written new field.span (quote value quoteText)) =
      written new field.span (quote value' quoteText) := by
  rw [Field.edited, FieldValue.quoteText, quote_literalQuote,
    written_written ordered inside]
  split
  next same => rw [show value = value' by simpa [FieldValue.isString] using same]
  next => rfl

/-- The field that is read behind an edit: the literal if the field is written
with a value of its own, and otherwise the next one of the name. -/
private theorem exists_shown (scanned : scan doc.text listName = .ok doc)
    (has : doc.HasField id name field) (notId : name ≠ "id".toList) :
    ∃ (own : Bool) (second? : Option Field),
      (own = false → ∃ plain, field.value = .name plain) ∧
      ∀ {value new : Text} {doc' : Document} {field' : Field},
        Edit listName doc id name value field new →
          field.value.isString value = false →
        scan new listName = .ok doc' → doc'.HasField id name field' →
          some field' = if own then
            some ⟨name, .string value (literalQuote field.value.quoteText),
              ⟨field.span.start,
                field.span.start + (quote value field.value.quoteText).length⟩⟩
            else second?.map (Field.moved (field.shift value)) := by
  obtain ⟨own, second?, plain, resized⟩ := exists_resized scanned has notId
  refine ⟨own, second?, plain,
    fun {value new doc' field'} edit fresh scanned' has' => ?_⟩
  obtain ⟨-, record', found', shown⟩ :=
    resized value _ doc' (edit.wrote fresh ▸ scanned')
  have shift : field.shift value =
      Span.resized field.span (quote value field.value.quoteText).length := by
    funext span
    rw [Field.shift, if_neg (by simp [fresh])]
  rw [← has'.field?_eq found', shown, shift]

section Again

variable {value' one both alone : Text} {doc₁ doc' : Document}
  {field₁ field' : Field}

/-- A field that held a string has a value of its own to write. -/
private theorem Edit.isString_of_stored {stored : Text}
    (edit : Edit listName doc id name value field new)
    (scanned : scan doc.text listName = .ok doc) (notId : name ≠ "id".toList)
    (held : field.value.isString stored = true)
    (fresh : field.value.isString value = false)
    (scanned' : scan new listName = .ok doc')
    (has' : doc'.HasField id name field') :
    field'.value.isString value = true := by
  obtain ⟨own, second?, plain, shown⟩ := exists_shown scanned edit.has notId
  have hasKey : own = true := by
    by_contra shorthand
    obtain ⟨name', isName⟩ := plain (by simpa using shorthand)
    simp [isName, FieldValue.isString] at held
  have literal := shown edit fresh scanned' has'
  rw [hasKey, if_pos rfl, Option.some.injEq] at literal
  simp [literal, FieldValue.isString]

private theorem Edit.eq_alone_iff
    (edit : Edit listName doc id name value field one)
    (scanned : scan doc.text listName = .ok doc) (notId : name ≠ "id".toList)
    (differs : field.value.isString value = false)
    (scanned₁ : scan one listName = .ok doc₁)
    (again : Edit listName doc₁ id name value' field₁ both)
    (single : Edit listName doc id name value' field alone)
    (fresh : field.value.isString value' = false)
    (scanned' : scan alone listName = .ok doc')
    (has' : doc'.HasField id name field') :
    both = alone ↔ field'.value.isString value' = true := by
  obtain ⟨own, second?, -, shown⟩ := exists_shown scanned edit.has notId
  have shown₁ := shown edit differs scanned₁ again.has
  have shown' := shown single fresh scanned' has'
  have text' := single.text?_eq scanned' has'
  rw [again.text_eq, text_of_scan scanned₁]
  cases own with
  | true =>
      rw [if_pos rfl, Option.some.injEq] at shown₁ shown'
      obtain ⟨ordered, inside⟩ := edit.has.bounds scanned
      refine iff_of_true ?_ (by simp [shown', FieldValue.isString])
      rw [shown₁, edit.wrote differs, single.wrote fresh,
        edited_edited (Nat.le_of_lt ordered) inside]
  | false =>
      -- both edits let the same second field show, so that they are one and the
      -- same
      rw [if_neg (by simp)] at shown₁ shown'
      obtain ⟨next, isSecond, rfl⟩ := Option.map_eq_some_iff.1 shown'.symm
      obtain ⟨next', isSecond', rfl⟩ := Option.map_eq_some_iff.1 shown₁.symm
      obtain rfl := Option.some.inj (isSecond.symm.trans isSecond')
      have text₁ := edit.text?_eq scanned₁ again.has
      obtain rfl : value = value' := Option.some.inj (text₁.symm.trans text')
      rw [single.wrote fresh, ← edit.wrote differs]
      exact edited_eq_self_iff scanned₁ again.has text₁

end Again

end Overwriting

/-- Whether a field of the record with an id is this string. -/
def Stores (text listName : Text) (ids : List CodePoint) (name : Text)
    (points : List CodePoint) : Prop :=
  ∃ doc id value field, scan text listName = .ok doc ∧ scalars? ids = some id ∧
    scalars? points = some value ∧ doc.HasField id name field ∧
    field.value.isString value = true

/-- The second of two edits of a field gives what it gives alone, unless the
record has a second field of the name that shows when the first has become a
literal, and is a plain name. -/
theorem setText_overwrites {text listName name one both alone : Text}
    {ids points points' : List CodePoint} (notId : name ≠ "id".toList)
    (differs : ¬ Stores text listName ids name points')
    (first : setText text listName ids name points = .ok (toPoints one))
    (second : setText one listName ids name points' = .ok (toPoints both))
    (single : setText text listName ids name points' = .ok (toPoints alone)) :
    ∃ doc id, ∃ site : RecordAt listName doc, scan text listName = .ok doc ∧
      scalars? ids = some id ∧
      doc.find id = .ok site.record ∧
      (both = alone ↔ exposesName name site.entries = false) := by
  obtain ⟨doc, id, value', field, scanned, isId, isValue', edit'⟩ :=
    exists_of_setText single
  obtain rfl := text_of_scan scanned
  have fresh : field.value.isString value' = false :=
    Bool.eq_false_iff.2 fun stored =>
    differs ⟨doc, id, value', field, scanned, isId, isValue', edit'.has, stored⟩
  obtain ⟨site, found, exposed⟩ := edit'.exists_site scanned notId fresh
  refine ⟨doc, id, site, scanned, isId, found, ?_⟩
  obtain ⟨_, _, value, _, scanned₀, isId₀, isValue, edit⟩ := exists_of_setText first
  obtain rfl := Except.ok.inj (scanned.symm.trans scanned₀)
  obtain rfl := Option.some.inj (isId.symm.trans isId₀)
  obtain rfl := edit'.has.unique edit.has
  obtain ⟨doc', field', scanned', has', -⟩ := edit'.reads
  rw [← exposed doc' field' scanned' has']
  by_cases stored : field.value.isString value = true
  · have kept : one = doc.text := by rw [edit.text_eq, Field.edited, if_pos stored]
    rw [kept] at second
    exact iff_of_true
      (toPoints_injective (Except.ok.inj (second.symm.trans single)))
      (edit'.isString_of_stored scanned notId stored fresh scanned' has')
  · obtain ⟨doc₁, -, scanned₁, -⟩ := edit.reads
    obtain ⟨field₁, again⟩ := exists_edit second scanned₁ isId isValue'
    exact edit.eq_alone_iff scanned notId (by simpa using stored) scanned₁ again
      edit' fresh scanned' has'

end Showcase.Registry

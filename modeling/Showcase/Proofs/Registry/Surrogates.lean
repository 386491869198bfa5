import Showcase.Proofs.Registry.Resizing

/-!
# Values with surrogates

A value that holds a surrogate is written and scanned again like every other.
Then either its literal is malformed, or the surrogates in it come in pairs and
are read as other characters, so that no such value is ever kept
(`writeField_of_surrogate`).
-/

namespace Showcase.Registry

section Written

variable {α : Type} {text : List α} {span s : Span} {literal literal' : List α}

private theorem slice_beside (inside : span.start ≤ text.length)
    (size : literal'.length = literal.length)
    (beside : s.stop ≤ span.start ∨ span.start + literal.length ≤ s.start) :
    s.slice (written text span literal') = s.slice (written text span literal) := by
  have front : (text.take span.start).length = span.start :=
    List.length_take_of_le inside
  rcases beside with left | right
  · have upTo (literal : List α) : (written text span literal).take s.stop =
        (text.take span.start).take s.stop := by
      rw [written, List.append_assoc, List.take_append_of_le_length (by omega)]
    rw [Span.slice, Span.slice, upTo, upTo]
  · have onwards {other : List α} (same : other.length = literal.length) :
        (written text span other).drop s.start =
          (text.drop span.stop).drop (s.start - (span.start + literal.length)) := by
      have length : (text.take span.start ++ other).length = span.start +
          literal.length := by
        rw [List.length_append, front, same]
      rw [written, List.drop_append, List.drop_eq_nil_of_le (by omega),
        List.nil_append, length]
    rw [Span.slice, Span.slice, List.drop_take, List.drop_take,
      onwards size, onwards rfl]

end Written

private theorem map_seen_written (text : Text) (span : Span)
    (value : List CodePoint) (quoteText : Text) :
    (written (toPoints text) span (quotePoints value quoteText)).map
      CodePoint.seen =
        written text span (quote (value.map CodePoint.seen) quoteText) := by
  rw [written, List.map_append, List.map_append, List.map_take, List.map_drop,
    map_seen_toPoints, map_seen_quotePoints, written]

/-- The code points of a written text are read as the text is, but for the
literal of the value. -/
private theorem readsAs_readAt {text : Text} {field : Field}
    (inside : field.span.start ≤ text.length) (value : List CodePoint)
    (quoteText : Text) :
    ReadsAs
      (readAt (written (toPoints text) field.span (quotePoints value quoteText)))
      (written text field.span (quote (value.map CodePoint.seen) quoteText))
      (field.literalSpan (value.map CodePoint.seen) quoteText)
      (match joinPairs? value with
        | some shown => .ok shown
        | none => .error .malformedEscape) := by
  have inside' : field.span.start ≤ (toPoints text).length := by
    rwa [toPoints, List.length_map]
  have size : (quotePoints value quoteText).length =
      (quote (value.map CodePoint.seen) quoteText).length := by
    rw [← map_seen_quotePoints, List.length_map]
  intro tokens tokenized t mem
  have slice := (tokenize_eq_ok_iff.1 tokenized).slice_of_mem mem
  refine ⟨fun span => ?_, fun beside => readAt_eq_value ?_⟩
  · rw [span, Field.literalSpan, slice_written inside] at slice
    have first : t.first = literalQuote quoteText := (List.cons.inj slice).1.symm
    rw [readAt, span, Field.literalSpan, ← size, slice_written inside', first]
    exact decodePoints_quotePoints value quoteText
  · have points : written (toPoints text) field.span
        (toPoints (quote (value.map CodePoint.seen) quoteText)) =
          toPoints (written text field.span
            (quote (value.map CodePoint.seen) quoteText)) := by
      simp [written, toPoints]
    have alike : (quotePoints value quoteText).length =
        (toPoints (quote (value.map CodePoint.seen) quoteText)).length := by
      rw [size, toPoints, List.length_map]
    rw [slice_beside inside' alike (by rwa [toPoints, List.length_map]),
      points, toPoints, Span.slice_map, slice, toPoints]

/-! ## Writing -/

/-- Why a value with a surrogate is not kept: the literal of a lone one cannot
be read, and a pair is read as one character. -/
def unspellable (value : List CodePoint) : Failure :=
  match joinPairs? value with
  | some _ => .storage
  | none => .registry .malformedEscape

/-- No value with a surrogate is written. -/
private theorem writeField_of_surrogate {text listName id name : Text}
    {doc : Document} {record : Record} {field : Field} {value : List CodePoint}
    (scanned : scan text listName = .ok doc) (found : doc.find id = .ok record)
    (current : record.field? name = some field) (notId : name ≠ "id".toList)
    (unspelled : scalars? value = none) :
    writeField doc listName id name value field = .error (unspellable value) := by
  obtain rfl := text_of_scan scanned
  have has : doc.HasField id name field := ⟨record, found, current⟩
  obtain ⟨ordered, inside⟩ := has.bounds scanned
  obtain ⟨before, after, split, -⟩ := find_eq_ok_iff.1 found
  obtain ⟨_, new, -, -, -, wrote⟩ :=
    exists_written_document scanned split current (value.map CodePoint.seen)
  obtain ⟨doc₀, readable⟩ := wrote.readable
  rw [wrote.text_eq] at readable
  have reads := readsAs_readAt (by omega : field.span.start ≤ doc.text.length) value
    field.value.quoteText
  obtain ⟨own, second?, -, reread⟩ := exists_reread scanned has notId
  obtain ⟨refused, accepted⟩ :=
    reread (value.map CodePoint.seen) field.value.quoteText
    (readAt (written (toPoints doc.text) field.span
      (quotePoints value field.value.quoteText)))
  have spliced : field.span.splice (toPoints doc.text)
      (quotePoints value field.value.quoteText) =
        .ok (written (toPoints doc.text) field.span
          (quotePoints value field.value.quoteText)) :=
    Span.splice_eq_ok _ (Nat.le_of_lt ordered) (by rwa [toPoints, List.length_map])
  unfold writeField unspellable
  simp only [spliced, mapError_ok, ok_bind, scanPoints, map_seen_written]
  cases joined : joinPairs? value with
  | none =>
      rw [joined] at reads
      rw [refused _ reads]
      rfl
  | some shown =>
      rw [joined] at reads
      obtain ⟨doc', scanned', count, -, record', found', -⟩ :=
        accepted shown doc₀ reads readable
      have isRecord : doc'.record id = .ok record' := mapError_eq_ok_iff.2 found'
      have other : (record'.value? name).map toPoints ≠ some value := by
        intro same
        obtain ⟨text, -, same⟩ := Option.map_eq_some_iff.1 same
        rw [← same, scalars?_toPoints] at unspelled
        simp at unspelled
      simp only [scanned', mapError_ok, ok_bind, count, isRecord, ne_eq,
        not_true_eq_false, if_false, if_neg other]

/-- What a change of a field that is there comes to. -/
theorem setField_eq {text listName id name : Text} {doc : Document}
    {record : Record} {field : Field} {ids : List CodePoint}
    (value : List CodePoint) (scanned : scan text listName = .ok doc)
    (isRecord : doc.recordOf ids = .ok record) (isId : record.id? = some id)
    (current : record.field? name = some field) (notId : name ≠ "id".toList) :
    setField text listName ids name value =
      (scalars? value).elim (.error (unspellable value)) fun value' =>
        if field.value.isString value' then .ok none
        else (writeValue doc listName id name value' field).map fun new =>
          some (toPoints new) := by
  unfold setField
  rw [scanText_eq scanned, ok_bind, isRecord, ok_bind]
  simp only [current, isId]
  cases spelled : scalars? value with
  | none =>
      obtain ⟨id', -, found⟩ := recordOf_eq_ok_iff.1 isRecord
      obtain rfl : id' = id :=
        Option.some.inj ((Document.id?_of_find found).symm.trans isId)
      have differs : ¬field.value.holds value = true := fun same => by
        obtain ⟨text, some⟩ := FieldValue.exists_of_holds same
        simp [spelled] at some
      rw [if_neg differs,
        writeField_of_surrogate scanned found current notId spelled]
      rfl
  | some value' =>
      obtain rfl := scalars?_eq_some_iff.1 spelled
      rw [FieldValue.holds_toPoints, writeField_toPoints, Option.elim_some]
      cases writeValue doc listName id name value' field <;> rfl

end Showcase.Registry

import Showcase.Proofs.Registry.Checked.Imports
import Showcase.Registry.Edit

/-!
# The checked reader

The fields and records of the list, and the whole registry.  The checked reader
reads what the reader reads and reports the same faults (`scan_eq`): no access
of its own ever fails.  So a registry text is read, or it is refused with one of
the registry's faults (`scan_inRange`).
-/

namespace Showcase.Registry

namespace Checked

/-! ## Fields -/

def keyName (key : Token) : Except Mishap Text :=
  if key.kind = .string then decode key.text else return key.text

/-- The field whose value is made of the tokens from `first` up to `stop`. -/
def valueAt (b : Bracketed) (name : Text) (first stop : Nat) :
    Except Mishap Field := do
  let head ← tokenAt b.tokens first
  let last ← tokenAt b.tokens (stop - 1)
  let span : Span := ⟨head.start, last.stop⟩
  if first + 1 = stop ∧ head.kind = .string then
    let value ← decode head.text
    let quote ← charAt head.text 0
    return ⟨name, .string value quote, span⟩
  else if first + 1 = stop ∧ head.kind = .name then
    return ⟨name, .name head.text, span⟩
  else return ⟨name, .expr, span⟩

/-- The field made of the tokens from `i` up to `stop`, if they have the shape
of one. -/
def fieldAt (b : Bracketed) (i stop : Nat) : Except Mishap (Option Field) := do
  let key ← tokenAt b.tokens i
  if key.kind = .punct ∨ stop ≤ i then return none
  else
    let name ← keyName key
    if i + 1 = stop ∧ key.kind = .name then
      return some ⟨name, .name key.text, key.span⟩
    else if i + 2 < stop then
      let colon ← tokenAt b.tokens (i + 1)
      if colon.text = [':'] then
        let field ← valueAt b name (i + 2) stop
        return some field
      else return none
    else return none

def fieldsFrom (b : Bracketed) (seen : List Text) (i close : Nat) :
    Except Mishap (List Field) :=
  if i < close then do
    let stop ← skipTo b [','] i close
    let field? ← fieldAt b i stop
    match field? with
    | some field =>
        if seen.contains field.name then fieldsFrom b seen (max i stop + 1) close
        else do
          let later ← fieldsFrom b (field.name :: seen) (max i stop + 1) close
          return field :: later
    | none => fieldsFrom b seen (max i stop + 1) close
  else return []
termination_by close - i

/-! ## Records -/

/-- The record made of the tokens from `i` up to `stop`, if they are one brace
group. -/
def recordAt (b : Bracketed) (i stop : Nat) (comma? previousComma? : Option Span) :
    Except Mishap (Option Record) := do
  let head ← tokenAt b.tokens i
  if head.text = ['{'] ∧ b.partner? i = some (stop - 1) then
    let last ← tokenAt b.tokens (stop - 1)
    let close ← partnerAt b i
    let fields ← fieldsFrom b [] (i + 1) close
    return some ⟨⟨head.start, last.stop⟩, fields, comma?, previousComma?⟩
  else return none

/-- The span of the comma at `stop`, if an element ends there and not at the
bracket. -/
def commaAt? (b : Bracketed) (stop close : Nat) : Except Mishap (Option Span) :=
  if stop < close then do
    let comma ← tokenAt b.tokens stop
    return some comma.span
  else return none

def elementsFrom (b : Bracketed) (previousComma? : Option Span) (i close : Nat) :
    Except Mishap Bracketed.Elements :=
  if i < close then do
    let stop ← skipTo b [','] i close
    if stop = i then .error (.fault .emptyElement)
    else
      let comma? ← commaAt? b stop close
      let record? ← recordAt b i stop comma? previousComma?
      let later ← elementsFrom b comma? (max i stop + 1) close
      let trailing := if stop + 1 < close then later.trailingComma
        else comma?.isSome
      return ⟨record?.toList ++ later.records, later.count + 1, trailing⟩
  else return ⟨[], 0, false⟩
termination_by close - i

/-! ## Registries -/

def scan (text listName : Text) : Except Mishap Document := do
  let tokens ← tokenize text
  let b ← matchBrackets tokens
  let opener ← findList b listName
  let close ← partnerAt b opener
  let elements ← elementsFrom b none (opener + 1) close
  let first ← tokenAt b.tokens opener
  let last ← tokenAt b.tokens close
  let imports ← importsFrom b 0
  return ⟨text, ⟨first.start, last.stop⟩, imports, elements.records, elements.count,
    elements.trailingComma⟩

variable {b : Bracketed} {i stop close : Nat}

private theorem keyName_eq (key : Token) :
    keyName key = (Bracketed.keyName key).mapError .fault := by
  rw [keyName, Bracketed.keyName]
  split
  · exact decode_eq key.first key.rest
  · rfl

theorem valueAt_eq (inside : i < stop) (bound : stop ≤ b.size) (name : Text) :
    (do
      let field ← valueAt b name i stop
      return some field) = (b.valueAt name i stop).mapError Mishap.fault := by
  obtain ⟨head, first⟩ := exists_token (Nat.lt_of_lt_of_le inside bound)
  obtain ⟨last, final⟩ := exists_token (b := b) (i := stop - 1) (by omega)
  have value : decode head.text = head.value.mapError .fault :=
    decode_eq head.first head.rest
  have quote : charAt head.text 0 = .ok head.first := rfl
  rw [valueAt, tokenAt_eq_ok first, ok_bind, tokenAt_eq_ok final, ok_bind,
    Bracketed.valueAt, first, final]
  simp only []
  split
  · rw [value, quote]
    cases head.value <;> rfl
  · split <;> rfl

theorem fieldAt_eq (inside : i < b.size) (bound : stop ≤ b.size) :
    fieldAt b i stop = (b.fieldAt i stop).mapError .fault := by
  obtain ⟨key, found⟩ := exists_token inside
  rw [fieldAt, tokenAt_eq_ok found, ok_bind, Bracketed.fieldAt, found, keyName_eq]
  simp only []
  split
  · rfl
  cases Bracketed.keyName key with
  | error fault => rfl
  | ok name =>
      simp only [mapError_ok, ok_bind]
      split
      · rfl
      by_cases long : i + 2 < stop
      · obtain ⟨colon, next⟩ := exists_token (b := b) (i := i + 1) (by omega)
        simp only [long, true_and, if_true, tokenAt_eq_ok next, ok_bind,
          hasText_eq_beq next, beq_iff_eq]
        split
        · exact valueAt_eq long bound name
        · rfl
      · rw [if_neg long, if_neg fun both => long both.1]
        rfl

theorem fieldsFrom_eq (bound : close ≤ b.size) (seen : List Text) (i : Nat) :
    fieldsFrom b seen i close = (b.fieldsFrom seen i close).mapError .fault := by
  induction seen, i using fieldsFrom.induct close with
  | case1 seen i inside skipped kept =>
      have within : b.skipTo [','] i close ≤ b.size :=
        Nat.le_trans (skipTo_le b _ _ _) bound
      rw [fieldsFrom, if_pos inside, skipTo_eq_ok bound, ok_bind,
        fieldAt_eq (Nat.lt_of_lt_of_le inside bound) within, Bracketed.fieldsFrom,
        if_pos inside]
      dsimp only
      cases b.fieldAt i (b.skipTo [','] i close) with
      | error fault => rfl
      | ok field? =>
          simp only [mapError_ok, ok_bind, skipped, kept]
          cases field? with
          | none => rfl
          | some field =>
              dsimp only
              split
              · rfl
              · cases b.fieldsFrom (field.name :: seen)
                  (max i (b.skipTo [','] i close) + 1) close <;> rfl
  | case2 seen i outside =>
      rw [fieldsFrom, if_neg outside, Bracketed.fieldsFrom, if_neg outside]
      rfl

theorem recordAt_eq (inside : i < stop) (bound : stop ≤ b.size)
    (comma? previousComma? : Option Span) :
    recordAt b i stop comma? previousComma? =
      (b.recordAt i stop comma? previousComma?).mapError .fault := by
  obtain ⟨head, first⟩ := exists_token (Nat.lt_of_lt_of_le inside bound)
  obtain ⟨last, final⟩ := exists_token (b := b) (i := stop - 1) (by omega)
  rw [recordAt, tokenAt_eq_ok first, ok_bind, Bracketed.recordAt, first, final]
  simp only []
  split
  next group =>
    rw [tokenAt_eq_ok final, ok_bind, partnerAt_eq_ok group.2, ok_bind,
      fieldsFrom_eq (by omega)]
    cases b.fieldsFrom [] (i + 1) (stop - 1) <;> rfl
  next => rfl

private theorem commaAt?_eq_ok (bound : close ≤ b.size) (stop : Nat) :
    commaAt? b stop close =
      .ok (if stop < close then (b.token? stop).map Token.span else none) := by
  by_cases inside : stop < close
  · obtain ⟨comma, found⟩ := exists_token (Nat.lt_of_lt_of_le inside bound)
    rw [commaAt?, if_pos inside, if_pos inside, tokenAt_eq_ok found, found]
    rfl
  · rw [commaAt?, if_neg inside, if_neg inside]
    rfl

private theorem elementsFrom_eq (bound : close ≤ b.size)
    (previousComma? : Option Span) (i : Nat) :
    elementsFrom b previousComma? i close =
      (b.elementsFrom previousComma? i close).mapError .fault := by
  induction previousComma?, i using elementsFrom.induct close with
  | case1 previousComma? i inside ih =>
      rw [elementsFrom, if_pos inside, skipTo_eq_ok bound, ok_bind,
        Bracketed.elementsFrom, if_pos inside]
      by_cases empty : b.skipTo [','] i close = i
      · simp only [if_pos empty]
        rfl
      have ahead : i < b.skipTo [','] i close := by
        have := b.le_skipTo [','] i close (Nat.le_of_lt inside)
        omega
      have within : b.skipTo [','] i close ≤ b.size :=
        Nat.le_trans (skipTo_le b _ _ _) bound
      simp only [if_neg empty, commaAt?_eq_ok bound, ok_bind,
        recordAt_eq ahead within, ih]
      cases b.recordAt i (b.skipTo [','] i close) _ previousComma? with
      | error fault => rfl
      | ok record? =>
          simp only [mapError_ok, ok_bind]
          cases b.elementsFrom _ (max i (b.skipTo [','] i close) + 1) close <;> rfl
  | case2 previousComma? i outside =>
      rw [elementsFrom, if_neg outside, Bracketed.elementsFrom, if_neg outside]
      rfl

theorem scan_eq (text listName : Text) :
    scan text listName = (Registry.scan text listName).mapError .fault := by
  rw [scan, tokenize_eq, Registry.scan, scanWith]
  cases read : Registry.tokenize text with
  | error fault => rfl
  | ok tokens =>
      rw [mapError_ok, ok_bind, ok_bind, matchBrackets_eq]
      cases made : Bracketed.ofTokens tokens with
      | error fault => rfl
      | ok b =>
          have matched : Matched b :=
            matched_of_represents (Bracketed.represents_of_ofTokens made)
            (tokenize_eq_ok_iff.1 read).genuine
          rw [mapError_ok, ok_bind, ok_bind, findList_eq]
          cases found : b.findList listName with
          | error fault => rfl
          | ok opener =>
              have opened := hasText_of_findList found
              obtain ⟨close, partner⟩ := matched.opening opened
              have inside := b.lt_size_of_hasText opened
              have bound := matched.inside partner inside
              obtain ⟨first, start⟩ := exists_token inside
              obtain ⟨last, stop⟩ := exists_token bound
              rw [mapError_ok, ok_bind, ok_bind, partnerAt_eq_ok partner, ok_bind,
                elementsFrom_eq (Nat.le_of_lt bound)]
              simp only [partner, Option.getD_some, tokenAt_eq_ok start,
                tokenAt_eq_ok stop, start, stop,
                Option.map_some, ok_bind, importsFrom_eq]
              cases b.elementsFrom none (opener + 1) close with
              | error fault => rfl
              | ok elements =>
                  rw [mapError_ok, ok_bind, ok_bind, Bracketed.imports]
                  cases b.importsFrom 0 <;> rfl

end Checked

/-- A registry text is read or refused with a fault, and the checked reader
agrees: no index, no partner and no character that is looked up on the way is
missing.  So a value is located, or its text, its id or its field is refused. -/
theorem scan_inRange (text listName : Text) :
    ((∃ doc, Checked.scan text listName = .ok doc ∧
      scanText text listName = .ok doc) ∨
      ∃ fault, Checked.scan text listName = .error (.fault fault) ∧
        scanText text listName = .error (.registry fault) ∧
        (Failure.registry fault).category? = some .storage) ∧
    ∀ id field : Text,
      (∃ span, locate text listName id field = .ok span) ∨
        ∃ failure, locate text listName id field = .error failure ∧
          (failure.category? = some .storage ∨ failure.category? = some .notFound ∨
            failure.category? = some .duplicateRecord) := by
  have checked := Checked.scan_eq text listName
  cases read : scan text listName with
  | error fault =>
      have refused : scanText text listName = .error (.registry fault) := by
        rw [scanText, read, mapError_error]
      rw [read, mapError_error] at checked
      refine ⟨.inr ⟨fault, checked, refused, rfl⟩,
        fun id field => .inr ⟨.registry fault, ?_, .inl rfl⟩⟩
      rw [locate, refused, error_bind]
  | ok doc =>
      have scanned : scanText text listName = .ok doc := by
        rw [scanText, read, mapError_ok]
      rw [read, mapError_ok] at checked
      refine ⟨.inl ⟨doc, checked, scanned⟩, fun id field => ?_⟩
      rw [locate, scanned, ok_bind, Document.record]
      cases doc.find id with
      | error refusal =>
          cases refusal with
          | absent => exact .inr ⟨.noVersion, rfl, .inr (.inl rfl)⟩
          | ambiguous => exact .inr ⟨.ambiguousId, rfl, .inr (.inr rfl)⟩
      | ok record =>
          rw [mapError_ok, ok_bind]
          cases record.field? field with
          | none => exact .inr ⟨.noField field, rfl, .inr (.inl rfl)⟩
          | some found => exact .inl ⟨found.span, rfl⟩

end Showcase.Registry

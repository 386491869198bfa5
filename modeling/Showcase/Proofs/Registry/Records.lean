import Showcase.Proofs.Registry.Reading

/-!
# Where records and fields stand

Every record of a list is one of its chunks, and every field one of the chunks of
its record.
-/

namespace Showcase.Registry

/-! ## Records among the elements -/

theorem elementContents_append (chunks chunks' : List Chunk) :
    elementContents (chunks ++ chunks') =
      elementContents chunks >>= fun es =>
        (elementContents chunks').map (es ++ ·) := by
  induction chunks with
  | nil =>
      rw [List.nil_append, elementContents, ok_bind]
      cases elementContents chunks' <;> rfl
  | cons chunk chunks ih =>
      rw [List.cons_append, elementContents, elementContents, ih]
      by_cases empty : chunk.tokens = []
      · rw [if_pos empty, if_pos empty]
        rfl
      · rw [if_neg empty, if_neg empty]
        cases elementOf chunk.tokens with
        | error fault => rfl
        | ok element =>
            cases elementContents chunks with
            | error fault => rfl
            | ok es => cases elementContents chunks' <;> rfl

theorem recordsOf_append (es es' : List (Option (List Entry))) :
    recordsOf (es ++ es') = recordsOf es ++ recordsOf es' :=
  List.filterMap_append

/-- The comma before the chunk that follows some others. -/
def commaBehind (previousComma? : Option Span) (chunks : List Chunk) :
    Option Span :=
  match chunks.getLast? with
  | none => previousComma?
  | some chunk => chunk.comma?.map Token.span

theorem commaBehind_cons (previousComma? : Option Span) (chunk : Chunk)
    (chunks : List Chunk) :
    commaBehind previousComma? (chunk :: chunks) =
      commaBehind (chunk.comma?.map Token.span) chunks := by
  rw [commaBehind, commaBehind, List.getLast?_cons]
  cases chunks.getLast? <;> rfl

/-- The chunk of a record between the others, and what their elements say. -/
structure Record.Among (record : Record) (previousComma? : Option Span)
    (before after : List Record) (xs : List Chunk) (chunk : Chunk)
    (ys : List Chunk) (es : List (Option (List Entry))) (entries : List Entry)
    (es' : List (Option (List Entry))) :
    Prop where
  read : recordOf chunk.tokens (chunk.comma?.map Token.span) (commaBehind
    previousComma? xs) =
      .ok (some record)
  front : elementContents xs = .ok es
  element : elementOf chunk.tokens = .ok (some entries)
  back : elementContents ys = .ok es'
  earlier : recordsOf es = before.map Record.content
  later : recordsOf es' = after.map Record.content
  content : visible entries = record.content

theorem Record.Among.cons {record : Record} {previousComma? : Option Span}
    {before after : List Record} {xs ys : List Chunk} {first chunk : Chunk}
    {es es' : List (Option (List Entry))} {entries : List Entry}
    {record? : Option Record} {element : Option (List Entry)}
    (h : record.Among (first.comma?.map Token.span) before after xs
      chunk ys es entries es')
    (notEmpty : first.tokens ≠ []) (read : elementOf first.tokens = .ok element)
    (same : record?.map Record.content = element.map visible) :
    record.Among previousComma? (record?.toList ++ before)
      after (first :: xs) chunk ys (element :: es) entries es' where
  read := by rw [commaBehind_cons, h.read]
  front := by rw [elementContents, if_neg notEmpty, read, ok_bind, h.front, map_ok]
  element := h.element
  back := h.back
  earlier := by
    rw [List.map_append, ← h.earlier]
    cases record? <;> cases element <;> simp_all [recordsOf]
  later := h.later
  content := h.content

open Bracketed in
theorem exists_chunk {previousComma? : Option Span} {chunks : List Chunk}
    {elements : Elements} {before after : List Record} {record : Record}
    (h : elementsOf previousComma? chunks = .ok elements)
    (split : elements.records = before ++ record :: after) :
    ∃ xs chunk ys es entries es', chunks = xs ++ chunk :: ys ∧
      record.Among previousComma? before after xs chunk ys es entries es' := by
  induction chunks generalizing previousComma? elements before with
  | nil =>
      cases h
      simp at split
  | cons chunk chunks ih =>
      rw [elementsOf] at h
      split at h
      · simp at h
      next notEmpty =>
        obtain ⟨record?, here, rest⟩ := bind_eq_ok_iff.1 h
        obtain ⟨later, behind, rfl⟩ := map_eq_ok_iff.1 rest
        obtain ⟨element, content, same⟩ := exists_of_map_eq_map
          (recordOf_content chunk.tokens (chunk.comma?.map Token.span)
            previousComma?) here
        have deeper {before' : List Record}
            (split' : later.records = before' ++ record :: after) :
            ∃ xs chunk' ys es entries es', chunk :: chunks = xs ++ chunk' :: ys ∧
              record.Among previousComma? (record?.toList ++ before')
                after xs chunk' ys es entries
                es' := by
          obtain ⟨xs, chunk', ys, es, entries, es', rfl, there⟩ := ih behind split'
          exact ⟨chunk :: xs, chunk', ys, element :: es, entries, es', rfl,
            there.cons notEmpty content same⟩
        cases record? with
        | none => exact deeper (by simpa using split)
        | some first =>
            cases before with
            | nil =>
                obtain ⟨rfl, rfl⟩ := List.cons.inj split
                obtain ⟨entries, rfl, visible⟩ := Option.map_eq_some_iff.1 same.symm
                obtain ⟨es, contents, records, -⟩ := exists_contents behind
                exact ⟨[], chunk, chunks, [], entries, es, rfl,
                  ⟨here, rfl, content, contents, rfl, records.symm, visible⟩⟩
            | cons first' before =>
                obtain ⟨rfl, split'⟩ := List.cons.inj split
                exact deeper split'

theorem elementContents_between {xs ys : List Chunk} {chunk : Chunk}
    {es es' : List (Option (List Entry))} {element : Option (List Entry)}
    (front : elementContents xs = .ok es) (back : elementContents ys = .ok es')
    (notEmpty : chunk.tokens ≠ [])
    (content : elementOf chunk.tokens = .ok element) :
    elementContents (xs ++ chunk :: ys) = .ok (es ++ element :: es') := by
  rw [elementContents_append, front, ok_bind, elementContents, if_neg notEmpty,
    content, ok_bind, back]
  rfl

/-! ## The tokens of a record -/

/-- Whether some tokens are a single group in braces. -/
def IsBlock (ts : List Token) : Prop :=
  ∃ o inner c, ts = o :: (inner ++ [c]) ∧ o.text = ['{'] ∧ o.Pairs c ∧
    Balanced inner

theorem isBlock_of_groupBody? {ts : List Token} (balanced : Balanced ts)
    (h : (groupBody? ts).isSome = true) : IsBlock ts := by
  obtain ⟨inner, body⟩ := Option.isSome_iff_exists.1 h
  obtain ⟨o, c, block⟩ := groupBody?_eq_some balanced body
  exact ⟨o, inner, c, block⟩

/-! ## Fields among the chunks of a record -/

theorem entriesOf_append (chunks chunks' : List Chunk) :
    entriesOf (chunks ++ chunks') =
      entriesOf chunks >>= fun es => (entriesOf chunks').map (es ++ ·) := by
  induction chunks with
  | nil =>
      rw [List.nil_append, entriesOf, ok_bind]
      cases entriesOf chunks' <;> rfl
  | cons chunk chunks ih =>
      rw [List.cons_append, entriesOf, entriesOf, ih]
      cases entryOf chunk.tokens with
      | error fault => rfl
      | ok first? =>
          cases entriesOf chunks with
          | error fault => rfl
          | ok es => cases entriesOf chunks' <;> simp

theorem find?_firsts (name : Text) {seen : List Text}
    (fresh : seen.contains name = false) (fields : List Field) :
    (firsts seen fields).find? (·.name == name) =
      fields.find? (·.name == name) := by
  induction fields generalizing seen with
  | nil => rfl
  | cons field fields ih =>
      rw [firsts, List.find?_cons]
      by_cases here : field.name = name
      · subst here
        rw [fresh]
        simp
      · have other : (field.name == name) = false := by simpa using here
        split
        · rw [ih fresh, other]
        · rw [List.find?_cons, other, ih]
          simpa [Ne.symm here] using fresh

theorem exists_piece {chunks : List Chunk} {fields : List Field} {name : Text}
    {field : Field} (h : fieldsOf chunks = .ok fields)
    (found : fields.find? (·.name == name) = some field) :
    ∃ xs piece ys es es', chunks = xs ++ piece :: ys ∧
      fieldOf piece.tokens = .ok (some field) ∧
      field.name = name ∧ entriesOf xs = .ok es ∧ entriesOf ys = .ok es' ∧
      ∀ e ∈ es, e.name ≠ name := by
  induction chunks generalizing fields with
  | nil =>
      cases h
      simp at found
  | cons chunk chunks ih =>
      rw [fieldsOf] at h
      obtain ⟨field?, here, rest⟩ := bind_eq_ok_iff.1 h
      obtain ⟨later, behind, rfl⟩ := map_eq_ok_iff.1 rest
      by_cases isHere : field? = some field ∧ field.name = name
      · obtain ⟨rfl, named⟩ := isHere
        obtain ⟨es', contents, -⟩ :=
          exists_of_map_eq_map (entriesOf_content chunks).symm behind
        exact ⟨[], chunk, chunks, [], es', rfl, here, named, rfl, contents, by simp⟩
      · have other : ∀ first, field? = some first → first.name ≠ name := by
          rintro first rfl named
          rw [Option.toList_some, List.singleton_append, List.find?_cons] at found
          simp only [named, beq_self_eq_true, Option.some.injEq] at found
          exact isHere ⟨congrArg some found, found ▸ named⟩
        have found' : later.find? (·.name == name) = some field := by
          cases field? with
          | none => simpa using found
          | some first =>
              rw [Option.toList_some, List.singleton_append, List.find?_cons]
                at found
              have differs : (first.name == name) = false := by
                simpa using other first rfl
              rwa [differs] at found
        obtain ⟨xs, piece, ys, es, es', rfl, isField, named, front, back,
          before⟩ := ih behind found'
        have entry : entryOf chunk.tokens =
            .ok (field?.map fun f =>
              ⟨f.name, f.value, chunk.tokens.tail.isEmpty⟩) := by
          rw [entryOf, here]
          rfl
        refine ⟨chunk :: xs, piece, ys, _, es', rfl, isField, named,
          by rw [entriesOf, entry, ok_bind, front, map_ok], back, ?_⟩
        intro e mem
        cases field? with
        | none => exact before e (by simpa using mem)
        | some first =>
            simp only [Option.map_some, Option.toList_some, List.singleton_append,
              List.mem_cons] at mem
            rcases mem with rfl | mem
            · exact other first rfl
            · exact before e mem

/-- A field is a single name, or a key and a colon with the tokens of its value
behind. -/
theorem fieldOf_cases {piece : List Token} {field : Field}
    (h : fieldOf piece = .ok (some field)) :
    (∃ key, piece = [key] ∧ key.kind = .name ∧
      field = ⟨key.text, .name key.text, key.span⟩) ∨
      ∃ key colon v vs, piece = key :: colon :: v :: vs ∧ key.kind ≠ .punct ∧
        Bracketed.keyName key = .ok field.name ∧ colon.text = [':'] ∧
        valueOf field.name (v :: vs) = .ok (some field) ∧
        field.span = extent (v :: vs) := by
  cases piece with
  | nil => simp [fieldOf] at h
  | cons key rest =>
      rw [fieldOf] at h
      split at h
      · simp at h
      next notPunct =>
        obtain ⟨name, keyed, result⟩ := bind_eq_ok_iff.1 h
        cases rest with
        | nil =>
            by_cases named : key.kind = .name
            · simp only [named, if_true, Except.ok.injEq, Option.some.injEq]
                at result
              have same : name = key.text := by
                have notString : ¬key.kind = .string := by simp [named]
                rw [Bracketed.keyName, if_neg notString] at keyed
                exact (Except.ok.inj keyed).symm
              exact .inl ⟨key, rfl, named, by rw [← result, same]⟩
            · simp [named] at result
        | cons colon value =>
            dsimp only at result
            split at result
            next isColon =>
              cases value with
              | nil => simp [valueOf] at result
              | cons v vs =>
                  have shape : field.name = name ∧
                      field.span = extent (v :: vs) := by
                    cases vs with
                    | nil =>
                        rw [valueOf] at result
                        split at result
                        · obtain ⟨value, -, made⟩ := bind_eq_ok_iff.1 result
                          cases made
                          exact ⟨rfl, rfl⟩
                        · split at result
                          · cases result
                            exact ⟨rfl, rfl⟩
                          · cases result
                            exact ⟨rfl, rfl⟩
                    | cons u vs =>
                        cases result
                        exact ⟨rfl, rfl⟩
                  refine .inr ⟨key, colon, v, vs, rfl, notPunct, ?_,
                    isColon, ?_, shape.2⟩
                  · rw [shape.1, keyed]
                  · rw [shape.1, result]
            next => simp at result

/-! ## Other chunks -/

theorem Cut.append_right {xs ys : List Chunk} (h : Cut (xs ++ ys)) : Cut ys := by
  induction xs with
  | nil => exact h
  | cons x xs ih => exact ih h.tail

theorem Cut.replace {xs ys : List Chunk} {ts ts' : List Token}
    {comma? : Option Token} (h : Cut (xs ++ ⟨ts, comma?⟩ :: ys))
    (unbroken : Unbroken ts') (some : ts' ≠ []) :
    Cut (xs ++ ⟨ts', comma?⟩ :: ys) := by
  induction xs with
  | nil =>
      cases h with
      | last => exact .last unbroken some
      | more _ isComma later => exact .more unbroken isComma later
  | cons x xs ih =>
      cases xs with
      | nil =>
          cases h with
          | more unbroken' isComma later => exact .more unbroken' isComma (ih later)
      | cons x' xs =>
          cases h with
          | more unbroken' isComma later => exact .more unbroken' isComma (ih later)

theorem Cut.unbroken {xs ys : List Chunk} {chunk : Chunk}
    (h : Cut (xs ++ chunk :: ys)) :
    Unbroken chunk.tokens := by
  have := h.append_right
  cases this with
  | last unbroken _ => exact unbroken
  | more unbroken _ _ => exact unbroken

end Showcase.Registry

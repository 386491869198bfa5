import Showcase.Proofs.Registry.Bare
import Showcase.Registry.Document

/-!
# What a registry says

The content of a list is what its elements say, without positions: for each
element its entries, or nothing if it is no record.  Unlike the fields of a
record, the entries of an element include those of a name that occurred before.
`scan` reads the content of a token list (`scan_eq_ok_iff`, `elementsOf_content`).
-/

namespace Showcase.Registry

/-- A field as it is written; a shorthand field has no value of its own. -/
structure Entry where
  name : Text
  value : FieldValue
  shorthand : Bool
  deriving DecidableEq, Repr

def entryOf (piece : List Token) : Except Fault (Option Entry) :=
  (fieldOf piece).map (·.map fun field =>
    ⟨field.name, field.value, piece.tail.isEmpty⟩)

def entriesOf : List Chunk → Except Fault (List Entry)
  | [] => .ok []
  | chunk :: chunks =>
      entryOf chunk.tokens >>= fun first? =>
        (entriesOf chunks).map (first?.toList ++ ·)

def elementOf (piece : List Token) : Except Fault (Option (List Entry)) :=
  match groupBody? piece with
  | none => .ok none
  | some inner => (entriesOf (chunksOf inner)).map some

def elementContents : List Chunk → Except Fault (List (Option (List Entry)))
  | [] => .ok []
  | chunk :: chunks =>
      if chunk.tokens = [] then .error .emptyElement
      else elementOf chunk.tokens >>= fun element =>
        (elementContents chunks).map (element :: ·)

def Entry.content (entry : Entry) : Text × FieldValue := (entry.name, entry.value)

/-- The first pair of each name that is not yet `seen`. -/
def distinct (seen : List Text) :
    List (Text × FieldValue) → List (Text × FieldValue)
  | [] => []
  | pair :: pairs =>
      if seen.contains pair.1 then distinct seen pairs
      else pair :: distinct (pair.1 :: seen) pairs

/-- What the entries of a record say to a reader of its fields. -/
def visible (entries : List Entry) : List (Text × FieldValue) :=
  distinct [] (entries.map Entry.content)

def Record.content (record : Record) :
    List (Text × FieldValue) := record.fields.map Field.content

/-! ## The content of chunks -/

theorem entriesOf_content (chunks : List Chunk) :
    (entriesOf chunks).map (·.map Entry.content) =
      (fieldsOf chunks).map (·.map Field.content) := by
  induction chunks with
  | nil => rfl
  | cons chunk chunks ih =>
      rw [entriesOf, fieldsOf, entryOf]
      cases fieldOf chunk.tokens with
      | error fault => rfl
      | ok field? =>
          rcases map_eq_map_iff.1 ih with ⟨fault, entries, fields⟩ |
            ⟨es, fs, entries, fields, same⟩
          · simp [entries, fields]
          · simp only [ok_bind, map_ok, entries, fields, List.map_append, same]
            cases field? <;> rfl

private theorem firsts_content (seen : List Text) (fields : List Field) :
    (firsts seen fields).map Field.content =
      distinct seen (fields.map Field.content) := by
  induction fields generalizing seen with
  | nil => rfl
  | cons field fields ih =>
      simp only [firsts, List.map_cons, distinct, Field.content]
      split
      · exact ih seen
      · rw [List.map_cons, ih]
        rfl

theorem recordOf_content (piece : List Token)
    (comma? previousComma? : Option Span) :
    (recordOf piece comma? previousComma?).map (·.map Record.content) =
      (elementOf piece).map (·.map visible) := by
  rw [recordOf, elementOf]
  cases groupBody? piece with
  | none => rfl
  | some inner =>
      rcases map_eq_map_iff.1 (entriesOf_content (chunksOf inner)) with
        ⟨fault, entries, fields⟩ | ⟨es, fs, entries, fields, same⟩
      · simp [entries, fields]
      · simp [entries, fields, Record.content, firsts_content, visible, same]

def recordsOf (elements : List (Option (List Entry))) :
    List (List (Text × FieldValue)) :=
  elements.filterMap (·.map visible)

open Bracketed in
theorem elementsOf_content (previousComma? : Option Span) (chunks : List Chunk) :
    (elementsOf previousComma? chunks).map (fun e =>
      (e.records.map Record.content, e.count)) =
        (elementContents chunks).map fun es => (recordsOf es, es.length) := by
  induction chunks generalizing previousComma? with
  | nil => rfl
  | cons chunk chunks ih =>
      rw [elementsOf, elementContents]
      by_cases empty : chunk.tokens = []
      · rw [if_pos empty, if_pos empty]
        rfl
      · rw [if_neg empty, if_neg empty]
        dsimp only
        rcases map_eq_map_iff.1
          (recordOf_content chunk.tokens (chunk.comma?.map Token.span)
          previousComma?) with ⟨fault, record, element⟩ | ⟨r?, e?, record,
          element, same⟩
        · simp [record, element]
        · rcases map_eq_map_iff.1 (ih (chunk.comma?.map Token.span)) with
            ⟨fault, later, later'⟩ | ⟨e, es, later, later', rest⟩
          · simp [record, element, later, later']
          · obtain ⟨records, count⟩ := Prod.mk.inj rest
            cases r? <;> cases e? <;>
              simp_all [recordsOf]

open Bracketed in
theorem exists_contents {previousComma? : Option Span} {chunks : List Chunk}
    {elements : Elements}
    (h : elementsOf previousComma? chunks = .ok elements) :
    ∃ es, elementContents chunks = .ok es ∧ elements.records.map Record.content =
      recordsOf es ∧
      elements.count = es.length := by
  obtain ⟨es, contents, same⟩ :=
    exists_of_map_eq_map (elementsOf_content previousComma? chunks) h
  obtain ⟨records, count⟩ := Prod.mk.inj same
  exact ⟨es, contents, records, count⟩

open Bracketed in
theorem elementsOf_trailingComma {previousComma? : Option Span}
    {chunks : List Chunk} {elements : Elements}
    (h : elementsOf previousComma? chunks = .ok elements) :
    elements.trailingComma = (chunks.getLast?.bind Chunk.comma?).isSome := by
  induction chunks generalizing previousComma? elements with
  | nil =>
      cases h
      rfl
  | cons chunk chunks ih =>
      rw [elementsOf] at h
      split at h
      · simp at h
      · obtain ⟨record?, -, rest⟩ := bind_eq_ok_iff.1 h
        obtain ⟨later, found, rfl⟩ := map_eq_ok_iff.1 rest
        cases chunks with
        | nil => simp
        | cons next chunks => simpa using ih found

/-! ## Content without positions -/

private theorem entryOf_bare (piece : List Token) :
    entryOf (bare piece) = entryOf piece := by
  have tail : (bare piece).tail.isEmpty = piece.tail.isEmpty := by
    cases piece <;> simp [bare]
  rw [entryOf, entryOf, tail]
  rcases map_eq_map_iff.1 (fieldOf_bare piece) with ⟨fault, field, field'⟩ |
    ⟨f?, g?, field, field', same⟩
  · rw [field, field']
  · rw [field, field']
    cases f? <;> cases g? <;> simp_all [Field.content]

private theorem entriesOf_bare (chunks : List Chunk) :
    entriesOf (chunks.map Chunk.bare) = entriesOf chunks := by
  induction chunks with
  | nil => rfl
  | cons chunk chunks ih =>
      rw [List.map_cons, entriesOf, entriesOf, ih]
      exact congrArg (· >>= _) (entryOf_bare chunk.tokens)

private theorem elementOf_bare (piece : List Token) :
    elementOf (bare piece) = elementOf piece := by
  rw [elementOf, elementOf, groupBody?_bare]
  cases groupBody? piece with
  | none => rfl
  | some inner => simp only [Option.map_some, chunksOf_bare, entriesOf_bare]

theorem elementContents_bare (chunks : List Chunk) :
    elementContents (chunks.map Chunk.bare) = elementContents chunks := by
  induction chunks with
  | nil => rfl
  | cons chunk chunks ih =>
      have tokens : chunk.bare.tokens = bare chunk.tokens := rfl
      rw [List.map_cons, elementContents, elementContents, ih, tokens,
        elementOf_bare]
      by_cases empty : chunk.tokens = []
      · rw [if_pos empty, if_pos (bare_eq_nil.2 empty)]
      · rw [if_neg empty, if_neg (mt bare_eq_nil.1 empty)]

/-! ## The content of a list -/

/-- The tokens up to the first closing bracket that is not opened among them. -/
def groupInner : Nat → List Token → List Token
  | _, [] => []
  | 0, t :: ts =>
      if t.closer?.isSome then t :: groupInner 1 ts
      else if t.closes then []
      else t :: groupInner 0 ts
  | depth + 1, t :: ts =>
      t :: groupInner
        (if t.closer?.isSome then depth + 2 else if t.closes then
          depth else depth + 1) ts

private theorem groupInner_append {stack stack' : List Char} {ts : List Token}
    (h : awaited stack ts = some stack') (rest : List Token) :
    groupInner stack.length (ts ++ rest) = ts ++ groupInner stack'.length rest := by
  induction ts generalizing stack with
  | nil =>
      cases h
      rfl
  | cons t ts ih =>
      obtain ⟨next, step, behind⟩ := Option.bind_eq_some_iff.1 h
      rw [List.cons_append, List.cons_append, ← ih behind]
      rcases Token.await_cases step with ⟨closer, opening, rfl⟩ |
        ⟨opening, closing, rfl⟩ | ⟨opening, closing, rfl⟩
      · cases stack <;> simp [groupInner, opening]
      · cases next <;> simp [groupInner, opening, closing]
      · simp [groupInner, opening, closing]

theorem groupInner_eq {o c : Token} {inner : List Token} (pair : o.Pairs c)
    (inside : Balanced inner) (rest : List Token) :
    groupInner 0 (inner ++ c :: rest) = inner := by
  have := groupInner_append (inside.awaited_eq []) (c :: rest)
  rw [List.length_nil] at this
  rw [this, groupInner]
  simp [pair.closer?_eq_none, pair.closes]

private theorem groupInner_map {f : Token → Token} (keeps : Keeps f)
    (depth : Nat) (ts : List Token) :
    groupInner depth (ts.map f) = (groupInner depth ts).map f := by
  induction ts generalizing depth with
  | nil => rfl
  | cons t ts ih =>
      have opens := keeps.closer? t
      have ends := keeps.closes t
      cases opening : t.closer? with
      | some closer => cases depth <;> simp [groupInner, opens, opening, ih]
      | none =>
          cases closing : t.closes with
          | false => cases depth <;>
              simp [groupInner, opens, ends, opening, closing, ih]
          | true => cases depth <;>
              simp [groupInner, opens, ends, opening, closing, ih]

/-- The elements of a list and whether a comma stands behind the last. -/
structure Content where
  elements : List (Option (List Entry))
  trailingComma : Bool
  deriving DecidableEq, Repr

def contentOf (chunks : List Chunk) : Except Fault Content :=
  (elementContents chunks).map fun elements =>
    ⟨elements, (chunks.getLast?.bind Chunk.comma?).isSome⟩

def listContent (listName : Text) (tokens : List Token) : Except Fault Content :=
  match listFrom? listName none tokens with
  | none => .error (.listNotFound listName)
  | some suffix => contentOf (chunksOf (groupInner 0 suffix.tail))

private theorem contentOf_bare (chunks : List Chunk) :
    contentOf (chunks.map Chunk.bare) = contentOf chunks := by
  rw [contentOf, contentOf, elementContents_bare, List.getLast?_map]
  cases chunks.getLast? with
  | none => rfl
  | some chunk => simp [Chunk.bare]

private theorem listContent_bare (listName : Text) (tokens : List Token) :
    listContent listName (bare tokens) = listContent listName tokens := by
  have found := listFrom?_bare listName none tokens
  rw [Option.map_none] at found
  rw [listContent, listContent, found]
  cases listFrom? listName none tokens with
  | none => rfl
  | some suffix =>
      have tail : (bare suffix).tail = bare suffix.tail := List.map_tail.symm
      have inner : groupInner 0 (bare suffix.tail) =
          bare (groupInner 0 suffix.tail) :=
        groupInner_map keeps_bare 0 suffix.tail
      simp only [Option.map_some, tail, inner, chunksOf_bare, contentOf_bare]

theorem listContent_congr (listName : Text) {tokens tokens' : List Token}
    (same : bare tokens = bare tokens') :
    listContent listName tokens = listContent listName tokens' := by
  rw [← listContent_bare, same, listContent_bare]

end Showcase.Registry

import Showcase.Proofs.Registry.Moving
import Showcase.Proofs.Registry.Readers
import Showcase.Proofs.Registry.Rewrite

/-!
# Around a field's value

The tokens of a registry on both sides of a field's value (`FieldPlace`) are
read alike whatever stands in between: the records before and behind and the
other fields of the record stay (`FieldPlace.Reads.recordsIn_eq`).
-/

namespace Showcase.Registry

/-! ## Records and fields of chunks -/

def recordsIn (previousComma? : Option Span) (chunks : List Chunk)
    (read : LiteralReader := Token.value) : Except Fault (List Record) :=
  (elementsOf previousComma? chunks read).map Bracketed.Elements.records

private theorem toList_append_eq {α : Type} {x? : Option α} {x : α}
    {later before after : List α}
    (split : x?.toList ++ later = before ++ x :: after) :
    (x? = some x ∧ before = [] ∧ later = after) ∨
      ∃ before', before = x?.toList ++ before' ∧ later = before' ++ x :: after := by
  cases x? with
  | none => exact .inr ⟨before, rfl, split⟩
  | some first =>
      cases before with
      | nil =>
          obtain ⟨rfl, rfl⟩ := List.cons.inj split
          exact .inl ⟨rfl, rfl, rfl⟩
      | cons _ before =>
          obtain ⟨rfl, later⟩ := List.cons.inj split
          exact .inr ⟨before, rfl, later⟩

section Chunks

variable {previousComma? : Option Span} {chunk : Chunk} {chunks xs ys : List Chunk}
  {read : LiteralReader}

private theorem recordsIn_cons (some : chunk.tokens ≠ []) :
    recordsIn previousComma? (chunk :: chunks) read =
      recordOf chunk.tokens (chunk.comma?.map Token.span) previousComma? read >>=
        fun record? =>
        (recordsIn (chunk.comma?.map Token.span) chunks read).map
          (record?.toList ++ ·) := by
  rw [recordsIn, elementsOf, if_neg some]
  dsimp only
  cases recordOf chunk.tokens (chunk.comma?.map Token.span) previousComma? read with
  | error fault => rfl
  | ok record? =>
      rw [ok_bind, ok_bind, recordsIn]
      cases elementsOf (chunk.comma?.map Token.span) chunks read <;> rfl

private theorem tokens_ne_nil_of_recordsIn {records : List Record}
    (found : recordsIn previousComma? (chunk :: chunks) read = .ok records) :
    chunk.tokens ≠ [] := by
  intro empty
  rw [recordsIn, elementsOf, if_pos empty] at found
  simp at found

private theorem recordsIn_append {records : List Record}
    (first : recordsIn previousComma? xs read = .ok records) :
    recordsIn previousComma? (xs ++ ys) read =
      (recordsIn (commaBehind previousComma? xs) ys read).map (records ++ ·) := by
  induction xs generalizing previousComma? records with
  | nil =>
      cases first
      change recordsIn previousComma? ys read =
        (recordsIn previousComma? ys read).map ([] ++ ·)
      cases recordsIn previousComma? ys read <;> rfl
  | cons chunk xs ih =>
      have some := tokens_ne_nil_of_recordsIn first
      rw [recordsIn_cons some] at first
      obtain ⟨record?, here, rest⟩ := bind_eq_ok_iff.1 first
      obtain ⟨later, behind, rfl⟩ := map_eq_ok_iff.1 rest
      rw [List.cons_append, recordsIn_cons some, here, ok_bind, ih behind,
        commaBehind_cons]
      cases recordsIn (commaBehind (chunk.comma?.map Token.span) xs) ys read <;>
        simp [List.append_assoc]

private theorem exists_of_recordsIn {before after : List Record} {record : Record}
    (read : recordsIn previousComma? chunks = .ok (before ++ record :: after)) :
    ∃ xs chunk ys, chunks = xs ++ chunk :: ys ∧
      recordsIn previousComma? xs = .ok before ∧
      recordOf chunk.tokens (chunk.comma?.map Token.span)
        (commaBehind previousComma? xs) =
          .ok (some record) ∧
      recordsIn (chunk.comma?.map Token.span) ys = .ok after := by
  induction chunks generalizing previousComma? before with
  | nil => simp [recordsIn, elementsOf] at read
  | cons chunk chunks ih =>
      have some := tokens_ne_nil_of_recordsIn read
      rw [recordsIn_cons some] at read
      obtain ⟨record?, here, rest⟩ := bind_eq_ok_iff.1 read
      obtain ⟨later, behind, split⟩ := map_eq_ok_iff.1 rest
      obtain ⟨rfl, rfl, rfl⟩ | ⟨before', rfl, rfl⟩ := toList_append_eq split
      · exact ⟨[], chunk, chunks, rfl, rfl, here, behind⟩
      · obtain ⟨xs, chunk', ys, rfl, front, isRecord, back⟩ := ih behind
        refine ⟨chunk :: xs, chunk', ys, rfl, ?_, ?_, back⟩
        · rw [recordsIn_cons some, here, ok_bind, front, map_ok]
        · rwa [commaBehind_cons]

private theorem fieldsOf_append {fields : List Field}
    (first : fieldsOf xs read = .ok fields) :
    fieldsOf (xs ++ ys) read = (fieldsOf ys read).map (fields ++ ·) := by
  induction xs generalizing fields with
  | nil =>
      cases first
      change fieldsOf ys read = (fieldsOf ys read).map ([] ++ ·)
      cases fieldsOf ys read <;> rfl
  | cons chunk xs ih =>
      rw [fieldsOf] at first
      obtain ⟨field?, here, rest⟩ := bind_eq_ok_iff.1 first
      obtain ⟨later, behind, rfl⟩ := map_eq_ok_iff.1 rest
      rw [List.cons_append, fieldsOf, here, ok_bind, ih behind]
      cases fieldsOf ys read <;> simp [List.append_assoc]

private theorem exists_of_fieldsOf {before after : List Field} {field : Field}
    (read : fieldsOf chunks = .ok (before ++ field :: after)) :
    ∃ xs chunk ys, chunks = xs ++ chunk :: ys ∧ fieldsOf xs = .ok before ∧
      fieldOf chunk.tokens = .ok (some field) ∧ fieldsOf ys = .ok after := by
  induction chunks generalizing before with
  | nil => simp [fieldsOf] at read
  | cons chunk chunks ih =>
      rw [fieldsOf] at read
      obtain ⟨field?, here, rest⟩ := bind_eq_ok_iff.1 read
      obtain ⟨later, behind, split⟩ := map_eq_ok_iff.1 rest
      obtain ⟨rfl, rfl, rfl⟩ | ⟨before', rfl, rfl⟩ := toList_append_eq split
      · exact ⟨[], chunk, chunks, rfl, rfl, here, behind⟩
      · obtain ⟨xs, chunk', ys, rfl, front, isField, back⟩ := ih behind
        refine ⟨chunk :: xs, chunk', ys, rfl, ?_, isField, back⟩
        rw [fieldsOf, here, ok_bind, front, map_ok]

end Chunks

theorem Cut.front {xs ys : List Chunk} (h : Cut (xs ++ ys)) (some : ys ≠ []) :
    Cut xs := by
  induction xs with
  | nil => exact .nil
  | cons x xs ih =>
      generalize all : x :: xs ++ ys = chunks at h
      cases h with
      | nil => simp at all
      | last unbroken _ =>
          obtain ⟨-, none'⟩ := List.cons.inj all
          exact absurd (List.append_eq_nil_iff.1 none').2 some
      | more unbroken isComma later =>
          obtain ⟨rfl, rfl⟩ := List.cons.inj all
          exact .more unbroken isComma (ih later)

/-! ## The tokens around a value -/

/-- The tokens of a registry around the value of a field: those of the list with
the chunks before and behind the record, and in its braces the chunks before and
behind the field, of which the key with its colon is the first part unless the
field is a shorthand. -/
structure FieldPlace where
  front : List Token
  opener : Token
  earlier : List Chunk
  brace : Token
  ahead : List Chunk
  key : List Token
  comma? : Option Token
  behind : List Chunk
  closing : Token
  recordComma? : Option Token
  later : List Chunk
  closer : Token
  back : List Token

namespace FieldPlace

/-- The chunks of the record with these tokens as the value. -/
def pieces (p : FieldPlace) (value : List Token) : List Chunk :=
  p.ahead ++ ⟨p.key ++ value, p.comma?⟩ :: p.behind

def group (p : FieldPlace) (value : List Token) : List Token :=
  p.brace :: (join (p.pieces value) ++ [p.closing])

def chunks (p : FieldPlace) (value : List Token) : List Chunk :=
  p.earlier ++ ⟨p.group value, p.recordComma?⟩ :: p.later

def left (p : FieldPlace) : List Token :=
  p.front ++ p.opener :: (join p.earlier ++ p.brace :: (join p.ahead ++ p.key))

def right (p : FieldPlace) : List Token :=
  p.comma?.toList ++ (join p.behind ++ p.closing :: (p.recordComma?.toList ++
    (join p.later ++ p.closer :: p.back)))

theorem tokens_eq (p : FieldPlace) (value : List Token) :
    p.front ++ p.opener :: (join (p.chunks value) ++ p.closer :: p.back) =
      p.left ++ (value ++ p.right) := by
  simp [chunks, group, pieces, left, right, Chunk.all]

/-- The record with these tokens as the value and these fields. -/
def record (p : FieldPlace) (value : List Token) (fields : List Field) :
    Record where
  span := extent (p.group value)
  fields := firsts [] fields
  comma? := p.recordComma?.map Token.span
  previousComma? := commaBehind none p.earlier

/-- What is read on both sides of the value. -/
structure Reads (p : FieldPlace) (before after : List Record)
    (fields fields' : List Field) (read : LiteralReader := Token.value) : Prop where
  earlier : recordsIn none p.earlier read = .ok before
  ahead : fieldsOf p.ahead read = .ok fields
  behind : fieldsOf p.behind read = .ok fields'
  later : recordsIn (p.recordComma?.map Token.span) p.later read = .ok after
  braced : p.brace.text = ['{']
  pair : p.brace.Pairs p.closing

variable {p : FieldPlace} {value : List Token} {before after : List Record}
  {fields fields' : List Field} {read read' : LiteralReader}

/-- Readers that agree beside the value read the same there. -/
theorem Reads.congr (h : p.Reads before after fields fields' read)
    (cut : Cut (p.chunks value))
    (same : ∀ t ∈ p.left ++ p.right, read t = read' t) :
    p.Reads before after fields fields' read' := by
  obtain ⟨earlier, ahead, behind, later, braced, pair⟩ := h
  refine ⟨?_, ?_, ?_, ?_, braced, pair⟩
  · rwa [recordsIn, ← elementsOf_congr (cut.front (by simp)) fun t mem =>
      same t (by simp [left, mem])]
  · rwa [← fieldsOf_congr fun t mem => same t (by simp [left, mem])]
  · rwa [← fieldsOf_congr fun t mem => same t (by simp [right, mem])]
  · rwa [recordsIn, ← elementsOf_congr cut.append_right.tail fun t mem =>
      same t (by simp [right, mem])]

theorem Reads.recordsIn_eq (h : p.Reads before after fields fields' read)
    (cut : Cut (p.pieces value)) :
    recordsIn none (p.chunks value) read =
      (fieldOf (p.key ++ value) read).map fun field? =>
        before ++ p.record value (fields ++ field?.toList ++ fields') :: after := by
  have group : groupBody? (p.group value) = some (join (p.pieces value)) :=
    groupBody?_of_pair h.braced h.pair cut.balanced
  have some : p.group value ≠ [] := by simp [FieldPlace.group]
  rw [chunks, recordsIn_append h.earlier, recordsIn_cons some, recordOf, group]
  dsimp only
  rw [chunksOf_join cut, pieces, fieldsOf_append h.ahead, fieldsOf]
  cases fieldOf (p.key ++ value) read with
  | error fault => rfl
  | ok field? => simp [h.behind, h.later, record]

theorem cut_chunks {value' : List Token}
    (h : p.Reads before after fields fields' read) (cut : Cut (p.chunks value))
    (inner : Cut (p.pieces value')) : Cut (p.chunks value') :=
  cut.replace (unbroken_group h.pair h.braced inner.balanced) (by simp [group])

/-! ## Keys and values -/

/-- A field is a shorthand, or has a key and a colon in front of its value. -/
def Keyed (p : FieldPlace) (field : Field)
    (read : LiteralReader := Token.value) : Prop :=
  (p.key = [] ∧ ∃ name, field.value = .name name) ∨
    ∃ key colon, p.key = [key, colon] ∧ key.kind ≠ .punct ∧
      Bracketed.keyName key read = .ok field.name ∧ colon.text = [':']

theorem Keyed.congr {field : Field} (h : p.Keyed field read)
    (same : ∀ t ∈ p.left, read t = read' t) : p.Keyed field read' := by
  rcases h with shorthand | ⟨key, colon, isKey, notPunct, keyed, isColon⟩
  · exact .inl shorthand
  · refine .inr ⟨key, colon, isKey, notPunct, ?_, isColon⟩
    rw [← keyed, keyName_congr (same key (by simp [left, isKey]))]

private theorem Keyed.fieldOf_literal {field : Field} {lit : Token}
    (h : p.Keyed field read) (string : lit.kind = .string) :
    fieldOf (p.key ++ [lit]) read = (read lit).map fun text =>
      if p.key = [] then none else
        some ⟨field.name, .string text lit.first, lit.span⟩ := by
  rcases h with ⟨none', -⟩ | ⟨key, colon, isKey, notPunct, keyed, isColon⟩
  · cases found : read lit <;>
      simp [none', fieldOf, string, Bracketed.keyName, found]
  · cases found : read lit <;>
      simp [isKey, fieldOf, notPunct, keyed, isColon, valueOf, string, found]

theorem Keyed.cut {field : Field} (h : p.Keyed field read) (lit : Token)
    (string : lit.kind = .string) (cut : Cut (p.pieces value)) :
    Cut (p.pieces [lit]) := by
  have litPlain := Token.plain_of_kind (t := lit) (by simp [string])
  refine cut.replace (unbroken_of_plain ?_) (by simp)
  rcases h with ⟨none', -⟩ | ⟨key, colon, isKey, notPunct, -, isColon⟩
  · simpa [none'] using litPlain
  · simpa [isKey] using ⟨Token.plain_of_kind notPunct,
      Token.plain_of_colon isColon, litPlain⟩

/-- The records of a text with a literal in place of the value. -/
private theorem Reads.recordsIn_literal {field : Field} {lit : Token}
    (h : p.Reads before after fields fields' read) (keyed : p.Keyed field read)
    (cut : Cut (p.pieces [lit])) (string : lit.kind = .string) :
    recordsIn none (p.chunks [lit]) read = (read lit).map fun text =>
      before ++ p.record [lit] (fields ++ (if p.key = [] then none
        else some ⟨field.name, .string text lit.first, lit.span⟩).toList ++
          fields') :: after := by
  rw [h.recordsIn_eq cut, keyed.fieldOf_literal string]
  cases read lit <;> rfl

/-- A text in which a literal is the value at this place. -/
structure Spells (p : FieldPlace) (new listName : Text) (lit : Token)
    (before after : List Record) (field : Field) (fields fields' : List Field) :
    Prop where
  tokenized : tokenize new = .ok (p.left ++ (lit :: p.right))
  located : Located listName p.front p.opener (p.chunks [lit]) p.closer p.back
  cut : Cut (p.pieces [lit])
  string : lit.kind = .string
  reads : p.Reads before after fields fields'
  keyed : p.Keyed field

section Spells

variable {new listName : Text} {field : Field} {lit : Token}
  (h : p.Spells new listName lit before after field fields fields')
  (same : ∀ t ∈ p.left ++ p.right, t.value = read t)

include h same

theorem Spells.recordsIn_eq :
    recordsIn none (p.chunks [lit]) read = (read lit).map fun text =>
      before ++ p.record [lit] (fields ++ (if p.key = [] then none
        else some ⟨field.name, .string text lit.first, lit.span⟩).toList ++
          fields') :: after :=
  (h.reads.congr h.located.cut same).recordsIn_literal
    (h.keyed.congr fun t mem => same t (List.mem_append_left _ mem)) h.cut h.string

/-- A literal that cannot be read makes the text unreadable. -/
theorem Spells.scanWith_error {fault : Fault} (unread : read lit = .error fault) :
    scanWith read new listName = .error fault := by
  have records := h.recordsIn_eq same
  rw [unread, map_error, recordsIn, map_eq_error_iff] at records
  have tokenized := h.tokenized
  rw [← List.singleton_append, ← tokens_eq] at tokenized
  rw [scanWith_eq tokenized h.located, records, error_bind]

/-- A text that can be read at all is read with what its literal is read as. -/
theorem Spells.exists_record {text : Text} {doc : Document}
    (decoded : read lit = .ok text) (scanned : scan new listName = .ok doc) :
    ∃ doc' record, scanWith read new listName = .ok doc' ∧
      doc'.records = before ++ record :: after ∧
      record.fields = firsts [] (fields ++
        (if p.key = [] then none else
          some ⟨field.name, .string text lit.first, lit.span⟩).toList ++
            fields') := by
  have tokenized := h.tokenized
  rw [← List.singleton_append, ← tokens_eq] at tokenized
  have records := h.recordsIn_eq same
  rw [decoded, map_ok, recordsIn] at records
  obtain ⟨elements, found, records⟩ := map_eq_ok_iff.1 records
  rw [scan_eq tokenized h.located] at scanned
  obtain ⟨_, _, rest⟩ := bind_eq_ok_iff.1 scanned
  obtain ⟨_, imports, -⟩ := map_eq_ok_iff.1 rest
  rw [tokens_eq] at imports tokenized
  have readable (t : Token) (mem : t ∈ p.left ++ ([lit] ++ p.right)) (value : Text)
      (decoded' : t.value = .ok value) : ∃ value', read t = .ok value' := by
    rw [List.singleton_append, List.mem_append, List.mem_cons] at mem
    rcases mem with left | rfl | right
    · exact ⟨value, by rw [← same t (List.mem_append_left _ left), decoded']⟩
    · exact ⟨text, decoded⟩
    · exact ⟨value, by rw [← same t (List.mem_append_right _ right), decoded']⟩
  obtain ⟨imports', found'⟩ := exists_importsOf
    (fun s mem t inside => readable t (mem_of_mem_statements mem inside)) imports
  rw [← tokens_eq] at found' tokenized
  rw [scanWith_eq tokenized h.located, found, ok_bind, found', map_ok]
  exact ⟨_, _, rfl, records, rfl⟩

end Spells

/-- The place of a field in a text: its value is `t :: ts`, and the fields
before it have other names. -/
structure Holds (p : FieldPlace) (text listName : Text) (before : List Record)
    (record : Record) (after : List Record) (field : Field) (t : Token)
    (ts : List Token) (fields fields' : List Field) :
    Prop where
  tokenized : tokenize text = .ok (p.left ++ (t :: ts ++ p.right))
  located : Located listName p.front p.opener (p.chunks (t :: ts)) p.closer p.back
  cut : Cut (p.pieces (t :: ts))
  reads : p.Reads before after fields fields'
  keyed : p.Keyed field
  span : field.span = extent (t :: ts)
  others : ∀ other ∈ fields, other.name ≠ field.name
  fields_eq : record.fields = firsts [] (fields ++ field :: fields')

private theorem exists_of_fieldOf {piece : List Token} {field : Field}
    (h : fieldOf piece = .ok (some field)) :
    ∃ key t ts, piece = key ++ t :: ts ∧ field.span = extent (t :: ts) ∧
      ((key = [] ∧ ∃ name, field.value = .name name) ∨
        ∃ k colon, key = [k, colon] ∧ k.kind ≠ .punct ∧
          Bracketed.keyName k = .ok field.name ∧ colon.text = [':']) := by
  rcases fieldOf_cases h with
    ⟨key, rfl, -, rfl⟩ | ⟨key, colon, v, vs, rfl, notPunct, keyed, isColon, -, span⟩
  · exact ⟨[], key, [], rfl, rfl, .inl ⟨rfl, _, rfl⟩⟩
  · exact ⟨[key, colon], v, vs, rfl, span,
      .inr ⟨key, colon, rfl, notPunct, keyed, isColon⟩⟩

theorem exists_holds {text listName name : Text} {doc : Document}
    {record : Record} {field : Field} (scanned : scan text listName = .ok doc)
    (split : doc.records = before ++ record :: after)
    (found : record.field? name = some field) :
    ∃ p t ts fields fields',
      FieldPlace.Holds p text listName before record after field t ts
        fields fields' := by
  obtain ⟨front, opener, chunks, closer, back, tokenized, located⟩ :=
    exists_located scanned
  rw [scan_eq tokenized located] at scanned
  obtain ⟨elements, read, rest⟩ := bind_eq_ok_iff.1 scanned
  obtain ⟨imports, -, rfl⟩ := map_eq_ok_iff.1 rest
  have records : recordsIn none chunks = .ok (before ++ record :: after) := by
    rw [recordsIn, read, map_ok]
    exact congrArg Except.ok split
  obtain ⟨earlier, ⟨tokens, recordComma?⟩, later, rfl, front', isRecord, back'⟩ :=
    exists_of_recordsIn records
  rw [recordOf] at isRecord
  cases body : groupBody? tokens with
  | none => simp [body] at isRecord
  | some inner =>
      obtain ⟨brace, closing, rfl, braced, pair, inside⟩ :=
        groupBody?_eq_some located.cut.unbroken.1 body
      obtain ⟨pieces, cut, rfl⟩ := inside.exists_cut
      rw [body] at isRecord
      dsimp only at isRecord
      rw [chunksOf_join cut] at isRecord
      obtain ⟨all, fieldsRead, made⟩ := map_eq_ok_iff.1 isRecord
      obtain rfl := Option.some.inj made
      rw [Record.field?, find?_firsts name rfl] at found
      obtain ⟨named, fields, fields', rfl, others⟩ :=
        List.find?_eq_some_iff_append.1 found
      obtain rfl : field.name = name := by simpa using named
      obtain ⟨ahead, ⟨piece, comma?⟩, behind, rfl, aheadRead, isField,
          behindRead⟩ :=
        exists_of_fieldsOf fieldsRead
      obtain ⟨key, t, ts, rfl, span, keyed⟩ := exists_of_fieldOf isField
      exact ⟨⟨front, opener, earlier, brace, ahead, key, comma?, behind, closing,
        recordComma?, later,
        closer, back⟩, t, ts, fields, fields',
        by rw [← tokens_eq]; exact tokenized, located, cut,
        ⟨front', aheadRead, behindRead, back', braced, pair⟩, keyed, span,
        fun other mem => by simpa using others other mem, rfl⟩

end FieldPlace

end Showcase.Registry

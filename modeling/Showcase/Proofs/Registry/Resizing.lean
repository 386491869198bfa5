import Showcase.Proofs.Registry.FieldPlace
import Showcase.Proofs.Registry.Placement
import Showcase.Proofs.Registry.SetField

/-!
# Where everything stands behind an edit

A literal of another length in place of a field's value moves what stands behind
it (`Span.resized`), and nothing else that is read: the other fields are read
where they have moved to (`exists_resized`).
-/

namespace Showcase

/-- The span of some tokens after the text in the span `old`, which none of them
is in, has become `size` characters long. -/
def Span.resized (old : Span) (size : Nat) (span : Span) : Span :=
  ⟨if span.start < old.stop then span.start else
    span.start - old.stop + (old.start + size),
    if span.stop ≤ old.start then span.stop else
      span.stop - old.stop + (old.start + size)⟩

namespace Registry

def Token.resized (old : Span) (size : Nat) (t : Token) : Token :=
  { t with start := if t.start < old.stop then t.start else
    t.start - old.stop + (old.start + size) }

/-- The text with a literal in place of a span. -/
def written {α : Type} (text : List α) (span : Span) (literal : List α) : List α :=
  text.take span.start ++ literal ++ text.drop span.stop

theorem slice_written {α : Type} {text : List α} {span : Span}
    (inside : span.start ≤ text.length) (literal : List α) :
    (⟨span.start, span.start + literal.length⟩ : Span).slice
      (written text span literal) = literal := by
  have front : (text.take span.start).length = span.start :=
    List.length_take_of_le inside
  rw [Span.slice, written, List.append_assoc, List.drop_take, List.drop_left' front,
    Nat.add_sub_cancel_left, List.take_left]

variable {old : Span} {size : Nat}

private theorem Token.resized_of_ahead {t : Token}
    (ordered : old.start < old.stop) (ahead : t.stop ≤ old.start) :
    t.resized old size = t := by
  have := t.start_lt_stop
  rw [Token.resized, if_pos (by omega)]

private theorem Token.resized_of_behind {t : Token} (behind : old.stop ≤ t.start) :
    t.resized old size = { t with start :=
      t.start - old.stop + (old.start + size) } := by
  rw [Token.resized, if_neg (by omega)]

/-- Whether a token stands on one side of a span. -/
def Token.Beside (old : Span) (t : Token) : Prop :=
  t.stop ≤ old.start ∨ old.stop ≤ t.start

private theorem carries_resized {tokens : List Token} (size : Nat)
    (ordered : old.start < old.stop) (beside : ∀ t ∈ tokens, t.Beside old) :
    Carries (Token.resized old size) (Span.resized old size)
      (fun _ value value' => value' = value) tokens where
  keeps := ⟨fun _ => rfl, fun _ => rfl, fun _ _ => rfl⟩
  span t _ u mem := by
    have short := u.start_lt_stop
    have stop (v : Token) : (v.resized old size).stop =
        (if v.start < old.stop then v.start else
          v.start - old.stop + (old.start + size)) +
          v.text.length := rfl
    have length : u.stop = u.start + u.text.length := rfl
    rw [Span.resized, stop, Token.resized, Span.mk.injEq]
    refine ⟨rfl, ?_⟩
    dsimp only
    rcases beside u mem with left | right
    · rw [if_pos (by omega), if_pos left, length]
    · rw [if_neg (by omega), if_neg (by omega)]
      omega
  decodes _ _ _ value decoded := ⟨value, decoded, rfl⟩

/-! ## The tokens of the written text -/

section Tokens

variable {start : Nat} {text : Text} {tokens left right ts : List Token}
  {t last : Token} {next? : Option Char}

private theorem map_restart (start' : Nat)
    (beyond : ∀ t ∈ tokens, start + size ≤ t.start) :
    tokens.map (fun t => { t with start :=
      t.start - (start + size) + (start' + size) }) =
        tokens.map fun t => { t with start := t.start - start + start' } := by
  refine List.map_congr_left fun t mem => ?_
  have := beyond t mem
  rw [Token.mk.injEq]
  exact ⟨rfl, rfl, rfl, by omega⟩

private theorem Lexed.restart (h : Lexed start text tokens next?) (start' : Nat) :
    Lexed start' text (tokens.map fun t => { t with start :=
      t.start - start + start' }) next? := by
  induction h generalizing start' with
  | nil => exact .nil
  | gap lexeme ends later ih =>
      refine .gap lexeme ends ?_
      rw [← map_restart start' fun t mem => (later.bounds t mem).1]
      exact ih _
  | token lexeme ends later ih =>
      rw [List.map_cons]
      simp only [Nat.sub_self, Nat.zero_add]
      refine .token lexeme ends ?_
      rw [← map_restart start' fun t mem => (later.bounds t mem).1]
      exact ih _

private theorem exists_extent (t : Token) (ts : List Token) :
    ∃ last, (t :: ts).getLast? = some last ∧
      extent (t :: ts) = ⟨t.start, last.stop⟩ := by
  refine ⟨_, List.getLast?_cons, ?_⟩
  rw [extent, List.getLast?_cons]
  rfl

theorem Lexed.beside (h : Lexed 0 text (left ++ (t :: ts ++ right)) none) :
    (extent (t :: ts)).start < (extent (t :: ts)).stop ∧
      ∀ u ∈ left ++ right, u.Beside (extent (t :: ts)) := by
  obtain ⟨last, final, same⟩ := exists_extent t ts
  obtain ⟨-, behind, across⟩ := List.pairwise_append.1 h.pairwise
  obtain ⟨row, -, apart⟩ := List.pairwise_append.1 behind
  refine ⟨extent_ordered row (by simp), fun u mem => ?_⟩
  rw [same]
  rcases List.mem_append.1 mem with ahead | later
  · exact .inl (across u ahead t (by simp))
  · exact .inr (apart last (List.mem_of_getLast? final) u later)

/-- A literal in place of some tokens: what stands behind them moves. -/
theorem Lexed.written {q : Char} {body : Text}
    (h : Lexed 0 text (left ++ (t :: ts ++ right)) none)
    (literal : Lexeme (some .string) (q :: body)) :
    Lexed 0 (Registry.written text (extent (t :: ts)) (q :: body))
      (left.map (Token.resized (extent (t :: ts)) (q :: body).length) ++
        .string q body t.start ::
          right.map (Token.resized (extent (t :: ts)) (q :: body).length))
            none := by
  have quoted : isQuote q = true := by
    cases literal with
    | string quoted _ => exact quoted
  have genuine := h.genuine t (by simp)
  obtain ⟨ordered, -⟩ := h.beside
  obtain ⟨-, inside, across⟩ := List.pairwise_append.1 h.pairwise
  obtain ⟨-, -, apart⟩ := List.pairwise_append.1 inside
  obtain ⟨last, final, same⟩ := exists_extent t ts
  rw [same] at ordered ⊢
  obtain ⟨before, middle, after, rfl, start, stop, -, first, -, rest⟩ := h.window
  have stop := stop last final
  rw [Nat.zero_add] at start stop
  have stays : left.map (Token.resized ⟨t.start, last.stop⟩ (q :: body).length) =
      left :=
    (List.map_congr_left fun u mem =>
      Token.resized_of_ahead ordered (across u mem t (by simp))).trans
      (List.map_id left)
  have moves : right.map (Token.resized ⟨t.start, last.stop⟩ (q :: body).length) =
      right.map fun u => { u with start :=
        u.start - last.stop + (t.start + (q :: body).length) } :=
    List.map_congr_left fun u mem =>
      Token.resized_of_behind (apart last (List.mem_of_getLast? final) u mem)
  have behind := rest.restart (t.start + (q :: body).length)
  rw [Nat.zero_add, ← stop] at behind
  have written : Lexed t.start (q :: body ++ after)
      (.string q body t.start :: right.map fun u =>
        { u with start := u.start - last.stop + (t.start + (q :: body).length) })
      none := .token literal trivial behind
  have whole := Lexed.append (first.reseat_quote genuine.first_ne_newline quoted)
    (by rw [Nat.zero_add, ← start]; exact written)
  have text_eq : Registry.written (before ++ (middle ++ after)) ⟨t.start,
      last.stop⟩ (q :: body) = before ++ (q :: body ++ after) := by
    rw [Registry.written, start, stop, List.take_left, ← List.append_assoc before,
      List.drop_left, List.append_assoc]
  rw [text_eq, stays, moves]
  exact whole

end Tokens

/-! ## What is read on both sides -/

section Carried

variable {f : Token → Token} {move : Span → Span} {tokens : List Token}
  {chunks : List Chunk}

/-- A change that only moves tokens. -/
abbrev Moves (f : Token → Token) (move : Span → Span) (tokens : List Token) :
    Prop :=
  Carries f move (fun _ value value' => value' = value) tokens

private theorem steady_eq (tokens : List Token) :
    Steady (fun _ value value' => value' = value) tokens :=
  fun _ _ _ _ _ same => same

theorem Carries.recordsIn_eq {previousComma? : Option Span} {records : List Record}
    (h : Moves f move tokens) (cut : Cut chunks) (within : join chunks ⊆ tokens)
    (read : recordsIn previousComma? chunks = .ok records) :
    recordsIn (previousComma?.map move) (chunks.map (Chunk.map f)) =
      .ok (records.map (Record.moved move)) := by
  obtain ⟨elements, found, rfl⟩ := map_eq_ok_iff.1 read
  obtain ⟨elements', found', carried⟩ := h.elementsOf cut within found
  rw [recordsIn, found', map_ok,
    eq_map_of_forall₂ carried.records fun _ _ same => same.eq (steady_eq tokens)]

private theorem Carries.fieldsOf_eq {fields : List Field} (h : Moves f move tokens)
    (within : join chunks ⊆ tokens) (read : Registry.fieldsOf chunks = .ok fields) :
    Registry.fieldsOf (chunks.map (Chunk.map f)) =
      .ok (fields.map (Field.moved move)) := by
  obtain ⟨fields', found, carried⟩ := h.fieldsOf within read
  rw [found, eq_map_of_forall₂ carried fun _ _ same => same.eq (steady_eq tokens)]

end Carried

namespace FieldPlace

def map (f : Token → Token) (p : FieldPlace) : FieldPlace where
  front := p.front.map f
  opener := f p.opener
  earlier := p.earlier.map (Chunk.map f)
  brace := f p.brace
  ahead := p.ahead.map (Chunk.map f)
  key := p.key.map f
  comma? := p.comma?.map f
  behind := p.behind.map (Chunk.map f)
  closing := f p.closing
  recordComma? := p.recordComma?.map f
  later := p.later.map (Chunk.map f)
  closer := f p.closer
  back := p.back.map f

variable {f : Token → Token} {move : Span → Span} {p : FieldPlace}
  {value : List Token} {before after : List Record}
  {fields fields' : List Field}

private theorem left_map (f : Token → Token) (p : FieldPlace) :
    (p.map f).left = p.left.map f := by
  simp [left, map, join_map]

private theorem right_map (f : Token → Token) (p : FieldPlace) :
    (p.map f).right = p.right.map f := by
  cases comma : p.comma? <;> cases comma' : p.recordComma? <;>
    simp [right, map, join_map, comma, comma']

private theorem pieces_map (f : Token → Token) (p : FieldPlace)
    (value : List Token) :
    (p.map f).pieces (value.map f) = (p.pieces value).map (Chunk.map f) := by
  simp [pieces, map, Chunk.map]

private theorem chunks_map (f : Token → Token) (p : FieldPlace)
    (value : List Token) :
    (p.map f).chunks (value.map f) = (p.chunks value).map (Chunk.map f) := by
  have group : (p.map f).group (value.map f) = (p.group value).map f := by
    rw [FieldPlace.group, pieces_map, join_map]
    simp [FieldPlace.group, map]
  simp [chunks, group, Chunk.map]
  simp [map]

theorem Reads.map (h : p.Reads before after fields fields')
    (moves : Moves f move (p.left ++ p.right)) (cut : Cut (p.chunks value)) :
    (p.map f).Reads (before.map (Record.moved move)) (after.map (Record.moved move))
      (fields.map (Field.moved move)) (fields'.map (Field.moved move)) := by
  have comma : (p.recordComma?.map f).map Token.span =
      (p.recordComma?.map Token.span).map move := by
    cases found : p.recordComma? with
    | none => rfl
    | some c =>
        have mem : c ∈ p.left ++ p.right := by simp [right, found]
        exact congrArg some (moves.span c mem c mem)
  refine ⟨?_, ?_, ?_, ?_, ?_, ?_⟩
  · exact moves.recordsIn_eq (cut.front (by simp)) (fun t mem => by
      simp [left, mem]) h.earlier
  · exact moves.fieldsOf_eq (fun t mem => by simp [left, mem]) h.ahead
  · exact moves.fieldsOf_eq (fun t mem => by simp [right, mem]) h.behind
  · have later := moves.recordsIn_eq cut.append_right.tail
      (fun t mem => by simp [right, mem]) h.later
    rwa [← comma] at later
  · exact (moves.keeps.text_eq_iff p.brace ['{'] rfl).2 h.braced
  · rw [Token.Pairs]
    simp only [FieldPlace.map, moves.keeps.closer?, moves.keeps.first,
      moves.keeps.kind]
    exact h.pair

theorem Keyed.resized {field : Field} (h : p.Keyed field) (old : Span)
    (size : Nat) :
    (p.map (Token.resized old size)).Keyed field := by
  rcases h with ⟨none', value⟩ | ⟨key, colon, isKey, notPunct, keyed, isColon⟩
  · exact .inl ⟨by simp [FieldPlace.map, none'], value⟩
  · exact .inr ⟨key.resized old size, colon.resized old size,
      by simp [FieldPlace.map, isKey], notPunct, keyed, isColon⟩

variable {text listName : Text} {record : Record} {field : Field} {t : Token}
  {ts : List Token}

/-- The value has given way to a literal, and all else has moved. -/
theorem Holds.spells
    (h : p.Holds text listName before record after field t ts fields fields')
    (value quoteText : Text) :
    ∃ lit, lit.first = literalQuote quoteText ∧ lit.text = quote value quoteText ∧
      lit.start = field.span.start ∧
      (p.map (Token.resized field.span (quote value quoteText).length)).Spells
        (written text field.span (quote value quoteText)) listName lit
        (before.map
          (Record.moved (Span.resized field.span (quote value quoteText).length)))
        (after.map
          (Record.moved (Span.resized field.span (quote value quoteText).length)))
          field
        (fields.map
          (Field.moved (Span.resized field.span (quote value quoteText).length)))
        (fields'.map
          (Field.moved
            (Span.resized field.span (quote value quoteText).length))) := by
  obtain ⟨body, quoted, literal⟩ := quote_lexeme value quoteText
  have lexed := tokenize_eq_ok_iff.1 h.tokenized
  obtain ⟨ordered, beside⟩ := lexed.beside
  have tokenized := tokenize_eq_ok_iff.2 (lexed.written literal)
  have start : t.start = field.span.start := by rw [h.span]; rfl
  rw [← h.span, start, ← left_map, ← right_map, ← quoted] at tokenized
  rw [← h.span] at ordered beside
  have moves := carries_resized (quote value quoteText).length ordered beside
  have cut := h.cut.map moves.keeps
  have located := h.located.map moves.keeps
  rw [← pieces_map] at cut
  rw [← chunks_map] at located
  have reads := h.reads.map moves h.located.cut
  have keyed := h.keyed.resized field.span (quote value quoteText).length
  have inner := keyed.cut
    (.string (literalQuote quoteText) body field.span.start) rfl cut
  exact ⟨.string (literalQuote quoteText) body field.span.start, rfl,
    quoted.symm, rfl,
    tokenized, located.replace (cut_chunks reads located.cut inner), inner,
    rfl, reads, keyed⟩

end FieldPlace

/-! ## Fields of records -/

theorem Record.name_of_field? {record : Record} {name : Text} {field : Field}
    (h : record.field? name = some field) : field.name = name := by
  simpa using List.find?_some h

/-- The field of a name in the record with an id. -/
def Document.HasField (doc : Document) (id name : Text) (field : Field) : Prop :=
  ∃ record, doc.find id = .ok record ∧ record.field? name = some field

theorem Document.HasField.field?_eq {doc : Document} {id name : Text}
    {field : Field} {record : Record} (h : doc.HasField id name field)
    (found : doc.find id = .ok record) :
    record.field? name = some field := by
  obtain ⟨record', found', current⟩ := h
  obtain rfl := Except.ok.inj (found.symm.trans found')
  exact current

theorem Document.HasField.unique {doc : Document} {id name : Text}
    {field field' : Field} (h : doc.HasField id name field)
    (h' : doc.HasField id name field') : field = field' := by
  obtain ⟨record, found, current⟩ := h
  exact Option.some.inj (current.symm.trans (h'.field?_eq found))

private theorem find?_moved (move : Span → Span) (name : Text)
    (fields : List Field) :
    (fields.map (Field.moved move)).find? (·.name == name) =
      (fields.find? (·.name == name)).map (Field.moved move) := by
  rw [List.find?_map]
  rfl

private theorem Record.id?_congr {record record' : Record} {move : Span → Span}
    (same : record'.field? "id".toList =
      (record.field? "id".toList).map (Field.moved move)) :
    record'.id? = record.id? := by
  rw [Record.id?_eq, Record.id?_eq, idAmong, idAmong, ← field?_content,
    ← field?_content, same, Option.map_map]
  rfl

section Fields

variable {move : Span → Span} {name : Text} {record record' : Record}
  {field : Field} {field? : Option Field} {fields fields' : List Field}

private theorem field?_other
    (written : record.fields = firsts [] (fields ++ field :: fields'))
    (written' : record'.fields = firsts [] (fields.map (Field.moved move) ++
      field?.toList ++ fields'.map (Field.moved move)))
    (named : ∀ f ∈ field?, f.name = field.name) (differs : name ≠ field.name) :
    record'.field? name = (record.field? name).map (Field.moved move) := by
  have nothing : field?.toList.find? (·.name == name) = none := by
    rw [List.find?_eq_none]
    intro f mem
    simpa [named f (by simpa using mem)] using differs.symm
  rw [Record.field?, Record.field?, written, written', find?_firsts name rfl,
    find?_firsts name rfl,
    List.find?_append, List.find?_append, List.find?_append, nothing,
    List.find?_cons_of_neg (by simpa using differs.symm), find?_moved,
    find?_moved, Option.or_none, Option.map_or]

private theorem field?_own
    (written : record'.fields = firsts [] (fields.map (Field.moved move) ++
      field?.toList ++ fields'.map (Field.moved move)))
    (others : ∀ f ∈ fields, f.name ≠ name)
    (named : ∀ f ∈ field?, f.name = name) :
    record'.field? name =
      field?.or ((fields'.find? (·.name == name)).map (Field.moved move)) := by
  have front : fields.find? (·.name == name) = none := by
    rw [List.find?_eq_none]
    intro f mem
    simpa using others f mem
  rw [Record.field?, written, find?_firsts name rfl, List.find?_append,
    List.find?_append, find?_moved, front, find?_moved]
  cases field? with
  | none => rfl
  | some f => simp [named f rfl]

end Fields

section Exchanged

variable {doc doc' : Document} {before after : List Record}
  {record record' : Record} {move : Span → Span} {id id' name : Text}
  {field : Field}

private theorem find_exchanged (others : ∀ r ∈ before, r.id? ≠ some id)
    (others' : ∀ r ∈ after, r.id? ≠ some id) (isId : record'.id? = some id)
    (split : doc'.records = before.map (Record.moved move) ++ record' ::
      after.map (Record.moved move)) :
    doc'.find id = .ok record' := by
  have moved {records : List Record} (h : ∀ r ∈ records, r.id? ≠ some id) :
      ∀ r ∈ records.map (Record.moved move), r.id? ≠ some id := by
    intro r mem
    obtain ⟨r', mem', rfl⟩ := List.mem_map.1 mem
    rw [Record.id?_moved]
    exact h r' mem'
  exact find_eq_ok_iff.2 ⟨_, _, split, isId, moved others, moved others'⟩

theorem Document.HasField.exchanged (has : doc.HasField id' name field)
    (differs : id' ≠ id) (isId : record.id? = some id)
    (isId' : record'.id? = some id)
    (split : doc.records = before ++ record :: after)
    (split' : doc'.records = before.map (Record.moved move) ++ record' ::
      after.map (Record.moved move)) :
    doc'.HasField id' name (field.moved move) := by
  obtain ⟨r, found, current⟩ := has
  refine ⟨r.moved move, ?_, by rw [Record.field?_moved, current]; rfl⟩
  rw [Document.find_map (g := Record.moved move), found, map_ok]
  rw [split, split', List.filter_append, List.filter_append,
    List.filter_cons_of_neg (by simpa [isId'] using differs.symm),
    List.filter_cons_of_neg (by simpa [isId] using differs.symm),
    List.map_append, List.filter_map, List.filter_map]
  simp only [Function.comp_def, Record.id?_moved]

end Exchanged

/-! ## The written text -/

/-- A reader that reads one literal of a text in its own way, and the others as
they are. -/
def ReadsAs (read : LiteralReader) (text : Text) (literal : Span)
    (outcome : Except Fault Text) :
    Prop :=
  ∀ tokens, tokenize text = .ok tokens → ∀ t ∈ tokens,
    (t.span = literal → read t = outcome) ∧ (t.Beside literal → read t = t.value)

private theorem FieldPlace.Spells.readsAs {p : FieldPlace} {new listName : Text}
    {lit : Token} {before after : List Record} {field : Field}
    {fields fields' : List Field} {read : LiteralReader}
    {outcome : Except Fault Text}
    (spells : p.Spells new listName lit before after field fields fields')
    (reads : ReadsAs read new lit.span outcome) :
    read lit = outcome ∧ ∀ u ∈ p.left ++ p.right, u.value = read u := by
  have lexed : Lexed 0 new (p.left ++ (lit :: [] ++ p.right)) none :=
    tokenize_eq_ok_iff.1 spells.tokenized
  refine ⟨(reads _ spells.tokenized lit (by simp)).1 rfl, fun u mem => ?_⟩
  have inside : u ∈ p.left ++ lit :: p.right := by
    rw [List.mem_append, List.mem_cons]
    exact (List.mem_append.1 mem).imp_right .inr
  exact ((reads _ spells.tokenized u inside).2 (lexed.beside.2 u mem)).symm

/-- The span of a literal in place of a field's value. -/
def Field.literalSpan (field : Field) (value quoteText : Text) : Span :=
  ⟨field.span.start, field.span.start + (quote value quoteText).length⟩

/-- What has become of a document with another field of a name in one of its
records: all other fields have moved. -/
structure Document.Resized (doc doc' : Document) (id name : Text)
    (move : Span → Span) (field? : Option Field) : Prop where
  count : doc'.records.length = doc.records.length
  others : ∀ id' name' field', doc.HasField id' name' field' → id' ≠ id ∨
    name' ≠ name →
    doc'.HasField id' name' (field'.moved move)
  changed : ∃ record, doc'.find id = .ok record ∧ record.field? name = field?

section Exchanged

variable {doc doc' : Document} {before after : List Record}
  {record record' : Record} {move : Span → Span} {id : Text} {field : Field}
  {fields fields' : List Field} {field? : Option Field}

/-- The record in which a field is exchanged keeps its id, and all other fields
of the document have moved. -/
private theorem Document.Resized.of_fields (isId : record.id? = some id)
    (others : ∀ r ∈ before, r.id? ≠ some id)
    (others' : ∀ r ∈ after, r.id? ≠ some id) (notId : field.name ≠ "id".toList)
    (split : doc.records = before ++ record :: after)
    (split' : doc'.records = before.map (Record.moved move) ++ record' ::
      after.map (Record.moved move))
    (held : record.fields = firsts [] (fields ++ field :: fields'))
    (written : record'.fields = firsts [] (fields.map (Field.moved move) ++
      field?.toList ++ fields'.map (Field.moved move)))
    (ahead : ∀ f ∈ fields, f.name ≠ field.name)
    (named : ∀ f ∈ field?, f.name = field.name) :
    doc.Resized doc' id field.name move (field?.or
      ((fields'.find? (·.name == field.name)).map (Field.moved move))) := by
  have otherFields (other : Text) (differs : other ≠ field.name) :
      record'.field? other = (record.field? other).map (Field.moved move) :=
    field?_other held written named differs
  have isId' : record'.id? = some id := by
    rw [Record.id?_congr (otherFields _ notId.symm), isId]
  have found : doc.find id = .ok record :=
    find_eq_ok_iff.2 ⟨before, after, split, isId, others, others'⟩
  have found' : doc'.find id = .ok record' :=
    find_exchanged others others' isId' split'
  refine ⟨by simp [split, split'], ?_, record', found',
    field?_own written ahead named⟩
  rintro id' name' field' has differs
  by_cases same : id' = id
  · subst same
    have differs : name' ≠ field.name := differs.resolve_left fun ne => ne rfl
    exact ⟨record', found',
      by rw [otherFields name' differs, has.field?_eq found]; rfl⟩
  · exact has.exchanged same isId isId' split split'

end Exchanged

section Resized

variable {text listName id name : Text} {doc : Document} {field : Field}

/-- An edit moves all other fields.  The edited field is the literal if it is
written with a value of its own (`own`), and otherwise the next one of its name,
wherever that has moved to. -/
theorem exists_reread (scanned : scan text listName = .ok doc)
    (has : doc.HasField id name field) (notId : name ≠ "id".toList) :
    ∃ (own : Bool) (second? : Option Field),
      (own = false → ∃ plain, field.value = .name plain) ∧
      ∀ value quoteText read,
        (∀ fault, ReadsAs read (written text field.span (quote value quoteText))
            (field.literalSpan value quoteText) (.error fault) →
          scanWith read (written text field.span (quote value quoteText)) listName
            = .error fault) ∧
        ∀ shown doc₀, ReadsAs read (written text field.span (quote value quoteText))
            (field.literalSpan value quoteText) (.ok shown) →
          scan (written text field.span (quote value quoteText)) listName =
            .ok doc₀ →
          ∃ doc', scanWith read (written text field.span (quote value quoteText))
            listName = .ok doc' ∧
            doc.Resized doc' id name
              (Span.resized field.span (quote value quoteText).length)
              (if own then some ⟨name, .string shown (literalQuote quoteText),
                field.literalSpan value quoteText⟩
              else second?.map (Field.moved
                (Span.resized field.span (quote value quoteText).length))) := by
  obtain ⟨record, found, current⟩ := has
  obtain ⟨before, after, split, isId, others, others'⟩ := find_eq_ok_iff.1 found
  obtain ⟨p, t, ts, fields, fields', holds⟩ :=
    FieldPlace.exists_holds scanned split current
  obtain rfl := Record.name_of_field? current
  refine ⟨!p.key.isEmpty, fields'.find? (·.name == field.name), fun shorthand => ?_,
    fun value quoteText read => ?_⟩
  · rcases holds.keyed with ⟨-, plain⟩ | ⟨key, colon, isKey, -⟩
    · exact plain
    · simp [isKey] at shorthand
  obtain ⟨lit, first, quoted, start, spells⟩ := holds.spells value quoteText
  have span : field.literalSpan value quoteText = lit.span := by
    rw [Token.span, Token.stop, quoted, start, Field.literalSpan]
  have noKey (size : Nat) : (p.map (Token.resized field.span size)).key = [] ↔
      p.key = [] :=
    List.map_eq_nil_iff
  rw [span]
  refine ⟨fun fault reads => ?_, fun shown doc₀ reads readable => ?_⟩
  · obtain ⟨unread, same⟩ := spells.readsAs reads
    exact spells.scanWith_error same unread
  obtain ⟨decoded, same⟩ := spells.readsAs reads
  obtain ⟨doc', record', scanned', records, written⟩ :=
    spells.exists_record same decoded readable
  rw [first] at written
  simp only [noKey] at written
  refine ⟨doc', scanned', ?_⟩
  have resized := Document.Resized.of_fields isId others others' notId split
    records holds.fields_eq written holds.others (by split <;> simp)
  cases key : p.key with
  | nil => simpa [key] using resized
  | cons _ _ => simpa [key] using resized

theorem Document.HasField.bounds (scanned : scan text listName = .ok doc)
    (has : doc.HasField id name field) :
    field.span.start < field.span.stop ∧ field.span.stop ≤ text.length := by
  obtain ⟨record, found, current⟩ := has
  obtain ⟨before, after, split, -⟩ := find_eq_ok_iff.1 found
  obtain ⟨p, t, ts, fields, fields', holds⟩ :=
    FieldPlace.exists_holds scanned split current
  have lexed := tokenize_eq_ok_iff.1 holds.tokenized
  obtain ⟨last, final, same⟩ := exists_extent t ts
  have inside := (lexed.bounds last
    (List.mem_append_right
      _ (List.mem_append_left _ (List.mem_of_getLast? final)))).2
  rw [holds.span]
  refine ⟨lexed.beside.1, ?_⟩
  rw [same]
  dsimp only
  omega

/-- The literal that an edit writes is read as its value. -/
private theorem readsAs_value (inside : field.span.start ≤ text.length)
    (value quoteText : Text) :
    ReadsAs Token.value (written text field.span (quote value quoteText))
      (field.literalSpan value quoteText) (.ok value) := by
  refine fun tokens tokenized t mem => ⟨fun span => ?_, fun _ => rfl⟩
  have slice := (tokenize_eq_ok_iff.1 tokenized).slice_of_mem mem
  rw [span, Field.literalSpan, slice_written inside] at slice
  have read := decode_quote value quoteText
  rw [slice] at read
  have first : t.first = literalQuote quoteText := (List.cons.inj slice).1.symm
  rw [Token.value, first]
  exact read

/-- What is read of a text in which a literal has taken the place of a field's
value. -/
theorem exists_resized (scanned : scan text listName = .ok doc)
    (has : doc.HasField id name field) (notId : name ≠ "id".toList) :
    ∃ (own : Bool) (second? : Option Field),
      (own = false → ∃ plain, field.value = .name plain) ∧
      ∀ value quoteText doc',
        scan (written text field.span (quote value quoteText)) listName = .ok doc' →
          (∀ id' name' field', doc.HasField id' name' field' → id' ≠ id ∨
            name' ≠ name →
            doc'.HasField id' name'
              (field'.moved
                (Span.resized field.span (quote value quoteText).length))) ∧
          ∃ record', doc'.find id = .ok record' ∧ record'.field? name =
            if own then some ⟨name, .string value (literalQuote quoteText),
              ⟨field.span.start, field.span.start + (quote value quoteText).length⟩⟩
            else
              second?.map
                (Field.moved (Span.resized field.span
                  (quote value quoteText).length)) := by
  obtain ⟨own, second?, shorthand, reread⟩ := exists_reread scanned has notId
  refine ⟨own, second?, shorthand, fun value quoteText doc' scanned' => ?_⟩
  obtain ⟨ordered, inside⟩ := has.bounds scanned
  obtain ⟨doc'', same, resized⟩ :=
    (reread value quoteText Token.value).2 value doc'
      (readsAs_value (by omega) value quoteText) scanned'
  obtain rfl : doc' = doc'' := Except.ok.inj (scanned'.symm.trans same)
  exact ⟨resized.others, resized.changed⟩

end Resized

end Registry

end Showcase

import Showcase.Proofs.Registry.Layout
import Showcase.Proofs.Registry.Spelling

/-!
# Where everything stands

The spans of a document say where the list, its records with their commas, their
fields and the import statements stand in the text (`scan_placed`).  Edits cut
the text at these places and do not look again.
-/

namespace Showcase.Registry

/-- Only white space and comments stand between two places of a text. -/
def Adjoins (text : Text) (start stop : Nat) : Prop :=
  start ≤ stop ∧ Gap (Span.slice ⟨start, stop⟩ text)

/-- A comma outside the brackets of some tokens. -/
def IsListComma (body : List Token) (comma : Token) : Prop :=
  comma.isPunct ',' = true ∧ ∃ before after, body = before ++ comma :: after ∧
    Balanced before

/-- A text from which a field's value is read. -/
def FieldValue.Spells (slice : Text) : FieldValue → Prop
  | .string value quote =>
      isQuote quote = true ∧ ∃ rest, slice = quote :: rest ∧
        decode quote rest = .ok value
  | .name value => slice = value
  | .expr => ∃ ts, tokenize slice = .ok ts ∧ Balanced ts

/-- A field between the braces of a record. -/
structure Field.Placed (text : Text) (braces : Span) (field : Field) : Prop where
  inside : braces.start < field.span.start ∧ field.span.stop < braces.stop
  nonempty : field.span.start < field.span.stop
  spelled : field.value.Spells (field.span.slice text)

/-- A record of a list with the tokens `body` between its brackets. -/
structure Record.Placed (text : Text) (list : Span) (body : List Token)
    (record : Record) : Prop where
  inside : list.start < record.span.start ∧ record.span.stop < list.stop
  braces : ∃ inner, record.span.slice text = '{' :: (inner ++ ['}'])
  comma : ∀ comma ∈ record.comma?, (∃ t, IsListComma body t ∧ t.span = comma) ∧
    comma.slice text = [','] ∧ Adjoins text record.span.stop comma.start
  last : record.comma? = none ↔ Adjoins text record.span.stop (list.stop - 1)
  previousComma : ∀ comma ∈ record.previousComma?,
    (∃ t, IsListComma body t ∧ t.span = comma) ∧
    comma.slice text = [','] ∧ Adjoins text comma.stop record.span.start
  first : record.previousComma? = none ↔
    Adjoins text (list.start + 1) record.span.start
  fields : ∀ field ∈ record.fields, field.Placed text record.span
  fieldsApart : record.fields.Pairwise fun field field' =>
    field.span.stop ≤ field'.span.start

/-- A document whose list has the tokens `body` between its brackets. -/
structure Document.Placed (body : List Token) (doc : Document) : Prop where
  brackets : ∃ inner, doc.listSpan.slice doc.text = '[' :: (inner ++ [']'])
  records : ∀ record ∈ doc.records, record.Placed doc.text doc.listSpan body
  recordsApart : doc.records.Pairwise fun record record' =>
    record.span.stop ≤ record'.span.start
  trailing : doc.trailingComma = true ↔
    ∃ before comma, body = before ++ [comma] ∧ Balanced before ∧
    comma.isPunct ',' = true
  imports : ∀ i ∈ doc.imports, ∃ rest, i.span.slice doc.text =
    "import".toList ++ rest
  importsApart : doc.imports.Pairwise fun i i' => i.span.stop ≤ i'.span.start

/-! ## Slices of a text -/

section Slices

variable {text : Text} {front mid ts back : List Token} {t u : Token}

private theorem Lexed.slice_from (h : Lexed 0 text (front ++ t :: back) none)
    {stop : Nat} (le : t.stop ≤ stop) :
    ∃ rest, Span.slice ⟨t.start, stop⟩ text = t.text ++ rest := by
  obtain ⟨before, rest, rfl, position, -, -⟩ := h.cutBefore
  rw [Nat.zero_add] at position
  have length : t.stop = before.length + t.text.length := by
    rw [Token.stop, position]
  refine ⟨rest.take (stop - before.length - t.text.length), ?_⟩
  have enough : t.text.length ≤ stop - before.length := by omega
  rw [Span.slice, List.drop_take, position, List.drop_left, List.take_append,
    List.take_of_length_le enough]

private theorem Lexed.slice_upTo (h : Lexed 0 text (front ++ t :: back) none)
    {start : Nat} (le : start ≤ t.start) :
    Span.slice ⟨start, t.stop⟩ text = Span.slice ⟨start, t.start⟩ text ++
      t.text := by
  obtain ⟨before, rest, rfl, position, -, -⟩ := h.cutBefore
  rw [Nat.zero_add] at position
  have upTo : (before ++ (t.text ++ rest)).take t.stop = before ++ t.text := by
    have length : t.stop = (before ++ t.text).length := by
      rw [Token.stop, position, List.length_append]
    rw [length, ← List.append_assoc, List.take_left]
  rw [position] at le
  rw [Span.slice, Span.slice, upTo, position, List.take_left,
    List.drop_append_of_le_length le]

theorem Lexed.slice_between
    (h : Lexed 0 text (front ++ t :: (mid ++ u :: back)) none) :
    ∃ inner, Span.slice ⟨t.start, u.stop⟩ text = t.text ++ (inner ++ u.text) := by
  have apart := (List.pairwise_cons.1 (List.pairwise_append.1 h.pairwise).2.1).1 u
    (by simp)
  obtain ⟨inner, first⟩ := h.slice_from apart
  rw [← List.cons_append, ← List.append_assoc] at h
  have ordered := t.start_lt_stop
  refine ⟨inner, ?_⟩
  rw [h.slice_upTo (by omega), first, List.append_assoc]

private theorem Lexed.reseat_none {start : Nat} {tokens : List Token}
    {next? : Option Char} (h : Lexed start text tokens next?) :
    Lexed start text tokens none := by
  apply h.reseat
  · intro u _ _
    simp [EndsBefore]
  · intro t _ _
    cases t.kind <;> simp [EndsBefore]

private theorem Lexed.tokenize_slice
    (h : Lexed 0 text (front ++ t :: (ts ++ back)) none) :
    ∃ tokens, tokenize ((extent (t :: ts)).slice text) = .ok tokens ∧
      bare tokens = bare (t :: ts) := by
  obtain ⟨last, final⟩ : ∃ last, (t :: ts).getLast? = some last :=
    ⟨_, List.getLast?_cons⟩
  obtain ⟨before, middle, after, rfl, start, stop, -, -, here, -⟩ := h.window
  have stop := stop last final
  rw [Nat.zero_add] at start stop
  have slice : (extent (t :: ts)).slice (before ++ (middle ++ after)) = middle := by
    rw [extent, final, Span.slice]
    simp only [List.head?_cons, Option.map_some, Option.getD_some]
    rw [stop, start, ← List.append_assoc, List.take_left, List.drop_left]
  obtain ⟨tokens, chain, same⟩ := here.reseat_none.move 0
  rw [slice]
  exact ⟨tokens, tokenize_eq_ok_iff.2 chain, same⟩

end Slices

/-! ## Gaps between tokens -/

private theorem Gap.of_newline {gap : Text} (h : Gap ('\n' :: gap)) : Gap gap := by
  cases h with
  | blank _ later => exact later

private theorem gap_of_lexed {start : Nat} {text : Text} {c : Char}
    (h : Lexed start text [] (some c)) (inLine : c ≠ '\n') : Gap text := by
  generalize none' : ([] : List Token) = tokens at h
  generalize follow : some c = next? at h
  induction h with
  | nil => exact .nil
  | @gap _ u text _ _ lexeme ends _ ih =>
      have later := ih none' follow
      cases lexeme with
      | blank blank => exact .blank blank later
      | lineComment oneLine =>
          subst follow
          cases text with
          | nil => exact absurd (ends rfl c rfl) inLine
          | cons d text =>
              obtain rfl : d = '\n' := ends rfl d rfl
              exact .lineComment oneLine later.of_newline
      | blockComment closed => exact .blockComment closed later
  | token => simp at none'

section Between

variable {text : Text} {front mid back : List Token} {t u : Token}

/-- Two tokens adjoin each other if no token stands between them. -/
private theorem Lexed.adjoins_iff
    (h : Lexed 0 text (front ++ t :: (mid ++ u :: back)) none) :
    Adjoins text t.stop u.start ↔ mid = [] := by
  have apart := (List.pairwise_cons.1 (List.pairwise_append.1 h.pairwise).2.1).1 u
    (by simp)
  rw [← List.singleton_append, ← List.append_assoc] at h
  obtain ⟨left, right, rfl, -, behind, -, stop⟩ := h.split
  have stop := stop t (by simp)
  obtain ⟨between, rest, rfl, position, chain, here⟩ := behind.cutBefore
  have slice : Span.slice ⟨t.stop, u.start⟩
      (left ++ (between ++ (u.text ++ rest))) = between := by
    rw [position, stop, Nat.zero_add, Span.slice]
    simp only
    rw [← List.length_append, ← List.append_assoc, List.take_left, List.drop_left]
  rw [Adjoins, slice]
  constructor
  · rintro ⟨-, gap⟩
    rw [position] at here
    have same := tokensFrom_eq_ok_iff.2 (gap.lexed_append here)
    rw [tokensFrom_eq_ok_iff.2 behind] at same
    have length := congrArg List.length (Except.ok.inj same)
    simp only [List.length_append] at length
    exact List.length_eq_zero_iff.1 (by omega)
  · rintro rfl
    exact ⟨apart, gap_of_lexed chain (here.genuine u (by simp)).first_ne_newline⟩

private theorem Lexed.adjoins_next
    (h : Lexed 0 text (front ++ t :: u :: back) none) :
    Adjoins text t.stop u.start := by
  have next : Lexed 0 text (front ++ t :: ([] ++ u :: back)) none := h
  exact next.adjoins_iff.2 rfl

end Between

/-! ## Fields -/

section Fields

variable {text : Text} {front back piece : List Token} {field : Field}

private theorem valueOf_spells {name : Text} {v : Token} {vs : List Token}
    (lexed : Lexed 0 text (front ++ v :: (vs ++ back)) none)
    (balanced : Balanced (v :: vs))
    (read : valueOf name (v :: vs) = .ok (some field)) :
    field.value.Spells (field.span.slice text) := by
  have expr : FieldValue.expr.Spells ((extent (v :: vs)).slice text) := by
    obtain ⟨tokens, tokenized, same⟩ := lexed.tokenize_slice
    exact ⟨tokens, tokenized, balanced.of_bare same⟩
  cases vs with
  | nil =>
      have slice : v.span.slice text = v.text := lexed.slice_eq
      rw [valueOf] at read
      split at read
      next string =>
        obtain ⟨value, decoded, made⟩ := bind_eq_ok_iff.1 read
        cases made
        have quoted := (lexed.genuine v (by simp)).quoted string
        exact ⟨quoted, v.rest, slice, decoded⟩
      next =>
        split at read
        · cases read
          exact slice
        · cases read
          exact expr
  | cons u vs =>
      cases read
      exact expr

private theorem fieldOf_spells
    (lexed : Lexed 0 text (front ++ (piece ++ back)) none)
    (balanced : Balanced piece) (read : fieldOf piece = .ok (some field)) :
    field.value.Spells (field.span.slice text) := by
  rcases fieldOf_cases read with
    ⟨key, rfl, -, rfl⟩ | ⟨key, colon, v, vs, rfl, notPunct, -, isColon, read, -⟩
  · have slice : key.span.slice text = key.text := lexed.slice_eq
    exact slice
  · have keyAlone : Balanced [key] :=
      balanced_singleton (by simp [Token.closer?, notPunct])
      (by simp [Token.closes, notPunct])
    have first : colon.first = ':' := (List.cons.inj isColon).1
    have colonAlone : Balanced [colon] :=
      balanced_singleton (by simp [Token.closer?, first, closerOf?])
        (by simp [Token.closes, first, isCloser])
    have whole : Balanced ([key] ++ ([colon] ++ v :: vs)) := balanced
    have value := (whole.of_append keyAlone).of_append colonAlone
    have split : front ++ (key :: colon :: v :: vs ++ back) =
        front ++ [key, colon] ++ v :: (vs ++ back) := by
      simp
    rw [split] at lexed
    exact valueOf_spells lexed value read

private theorem fieldOf_reaches (read : fieldOf piece = .ok (some field)) :
    ∃ value, value ≠ [] ∧ value.Sublist piece ∧ field.span = extent value := by
  rcases fieldOf_cases read with
    ⟨key, rfl, -, rfl⟩ | ⟨key, colon, v, vs, rfl, -, -, -, -, span⟩
  · exact ⟨[key], by simp, .refl _, rfl⟩
  · exact ⟨v :: vs, by simp, by simp, span⟩

private theorem mem_fields {chunks : List Chunk} {fields : List Field}
    (h : fieldsOf chunks = .ok fields) (mem : field ∈ fields) :
    ∃ chunk ∈ chunks, fieldOf chunk.tokens = .ok (some field) := by
  induction chunks generalizing fields with
  | nil =>
      cases h
      simp at mem
  | cons chunk chunks ih =>
      rw [fieldsOf] at h
      obtain ⟨field?, here, rest⟩ := bind_eq_ok_iff.1 h
      obtain ⟨later, behind, rfl⟩ := map_eq_ok_iff.1 rest
      rcases List.mem_append.1 mem with first | mem
      · obtain rfl : field? = some field := by simpa using first
        exact ⟨chunk, by simp, here⟩
      · obtain ⟨chunk', inside, read⟩ := ih behind mem
        exact ⟨chunk', List.mem_cons_of_mem _ inside, read⟩

private theorem pairwise_fields {chunks : List Chunk} {fields : List Field}
    (h : fieldsOf chunks = .ok fields)
    (row : (join chunks).Pairwise fun t t' => t.stop ≤ t'.start) :
    fields.Pairwise fun field field' => field.span.stop ≤ field'.span.start := by
  induction chunks generalizing fields with
  | nil =>
      cases h
      exact .nil
  | cons chunk chunks ih =>
      rw [fieldsOf] at h
      obtain ⟨field?, here, rest⟩ := bind_eq_ok_iff.1 h
      obtain ⟨later, behind, rfl⟩ := map_eq_ok_iff.1 rest
      rw [join_cons] at row
      obtain ⟨-, rowBehind, apart⟩ := List.pairwise_append.1 row
      have ordered := ih behind rowBehind
      cases field? with
      | none => exact ordered
      | some field =>
          refine List.pairwise_cons.2 ⟨fun field' mem => ?_, ordered⟩
          obtain ⟨chunk', inside, read⟩ := mem_fields behind mem
          obtain ⟨value, some, sublist, span⟩ := fieldOf_reaches here
          obtain ⟨value', some', sublist', span'⟩ := fieldOf_reaches read
          have first : Reaches chunk.all (extent value) :=
            (reaches_extent some).mono fun t mem =>
              List.mem_append_left _ (sublist.subset mem)
          have second : Reaches (join chunks) (extent value') :=
            (reaches_extent some').mono fun t mem =>
              List.mem_flatMap.2 ⟨chunk', inside,
                List.mem_append_left _ (sublist'.subset mem)⟩
          rw [span, span']
          exact first.apart second apart

private theorem firsts_sublist (seen : List Text) (fields : List Field) :
    (firsts seen fields).Sublist fields := by
  induction fields generalizing seen with
  | nil => exact .slnil
  | cons field fields ih =>
      rw [firsts]
      split
      · exact (ih seen).cons field
      · exact (ih _).cons_cons field

end Fields

/-! ## Commas -/

namespace Cut

variable {xs ys : List Chunk} {ts : List Token} {chunk : Chunk} {comma : Token}

private theorem balanced_front (h : Cut (xs ++ ys)) : Balanced (join xs) := by
  induction xs with
  | nil => exact .nil
  | cons x xs ih =>
      have later := ih h.tail
      refine Balanced.append ?_ later
      generalize all : x :: xs ++ ys = chunks at h
      cases h with
      | nil => simp at all
      | last unbroken _ =>
          obtain ⟨rfl, -⟩ := List.cons.inj all
          simpa [Chunk.all] using unbroken.1
      | more unbroken isComma _ =>
          obtain ⟨rfl, -⟩ := List.cons.inj all
          exact unbroken.1.append (balanced_comma isComma)

private theorem isListComma (h : Cut (xs ++ ⟨ts, some comma⟩ :: ys)) :
    IsListComma (join (xs ++ ⟨ts, some comma⟩ :: ys)) comma := by
  have isComma : comma.isPunct ',' = true := by
    have here := h.append_right
    cases here with
    | more _ isComma _ => exact isComma
  refine ⟨isComma, join xs ++ ts, join ys, by simp [Chunk.all], ?_⟩
  exact h.balanced_front.append h.append_right.balanced_head

end Cut

private theorem seek_listComma {before after : List Token} {comma : Token}
    (balanced : Balanced before) (isComma : comma.isPunct ',' = true) :
    seek [','] 0 (before ++ comma :: after) ≠ [] := by
  cases found : seek [','] 0 before with
  | nil =>
      have step := seek_append_of_eq_nil (balanced.awaited_eq []) found
        (comma :: after)
      rw [List.length_nil, seek_comma isComma] at step
      simp [step]
  | cons first later =>
      obtain ⟨ahead, rfl, inside, nothing, isStop⟩ :=
        exists_of_seek_eq_cons [] found (balanced.awaited_eq [])
      have step := seek_append_of_eq_nil inside nothing
        (first :: (later ++ comma :: after))
      rw [Token.isPunctIn_comma] at isStop
      rw [List.length_nil, seek_comma isStop] at step
      simp [step]

/-- A comma stands behind the last chunk if the tokens end with a comma outside
brackets. -/
private theorem Cut.trailing_iff {chunks : List Chunk} (cut : Cut chunks) :
    (chunks.getLast?.bind Chunk.comma?).isSome = true ↔
      ∃ before comma, join chunks = before ++ [comma] ∧ Balanced before ∧
        comma.isPunct ',' = true := by
  rcases List.eq_nil_or_concat chunks with rfl | ⟨xs, ⟨ts, comma?⟩, rfl⟩
  · simp
  rw [List.concat_eq_append] at cut ⊢
  rw [List.getLast?_concat, Option.bind_some]
  cases comma? with
  | some comma =>
      obtain ⟨isComma, -⟩ := cut.isListComma
      refine iff_of_true rfl ⟨join xs ++ ts, comma, by simp [Chunk.all], ?_,
        isComma⟩
      exact cut.balanced_front.append cut.append_right.balanced_head
  | none =>
      refine iff_of_false (by simp) ?_
      rintro ⟨before, comma, split, balanced, isComma⟩
      have unbroken := cut.unbroken
      have some : ts ≠ [] := by
        have last := cut.append_right
        cases last with
        | last _ some => exact some
      obtain ⟨inner, last, rfl⟩ := (List.eq_nil_or_concat ts).resolve_left some
      simp only [join_append, join_cons, join_nil, Chunk.all, Option.toList_none,
        List.append_nil, List.concat_eq_append, ← List.append_assoc] at split
      obtain ⟨rfl, same⟩ := List.append_inj' split rfl
      obtain rfl : last = comma := by simpa using same
      have found : seek [','] 0 (inner ++ last :: []) ≠ [] :=
        seek_listComma (balanced.of_append cut.balanced_front) isComma
      exact found (by simpa using unbroken.2)

/-! ## Records -/

open Bracketed in
/-- The tokens of a record among those of its list, between its two commas. -/
theorem exists_place {chunks : List Chunk} {elements : Elements}
    {record : Record} (cut : Cut chunks)
    (read : elementsOf none chunks = .ok elements)
    (mem : record ∈ elements.records) :
    ∃ before o inner c after fields, join chunks = before ++ o ::
      (inner ++ c :: after) ∧
      o.text = ['{'] ∧ o.Pairs c ∧ Balanced inner ∧
      fieldsOf (chunksOf inner) = .ok fields ∧
      record = ⟨⟨o.start, c.stop⟩, firsts [] fields, after.head?.map Token.span,
        before.getLast?.map Token.span⟩ ∧
      (∀ comma ∈ before.getLast?, IsListComma (join chunks) comma) ∧
      ∀ comma ∈ after.head?, IsListComma (join chunks) comma := by
  obtain ⟨earlier, later, split⟩ := List.append_of_mem mem
  obtain ⟨xs, ⟨ts, comma?⟩, ys, -, -, -, rfl, isRecord, -⟩ :=
    exists_chunk read split
  rw [recordOf] at isRecord
  cases body : groupBody? ts with
  | none => simp [body] at isRecord
  | some inner =>
      obtain ⟨o, c, rfl, brace, pair, inside⟩ :=
        groupBody?_eq_some cut.append_right.balanced_head body
      rw [body] at isRecord
      obtain ⟨fields, found, made⟩ := map_eq_ok_iff.1 isRecord
      have after : (comma?.toList ++ join ys).head? = comma? := by
        cases comma? with
        | none =>
            rw [cut.eq_nil_of_comma rfl]
            rfl
        | some comma => rfl
      have before : (join xs).getLast?.map Token.span = commaBehind none xs ∧
          ∀ comma ∈ (join xs).getLast?,
            IsListComma (join (xs ++ ⟨o :: (inner ++ [c]), comma?⟩ :: ys))
              comma := by
        rcases List.eq_nil_or_concat xs with rfl | ⟨xs, ⟨ts, previous?⟩, rfl⟩
        · exact ⟨rfl, by simp⟩
        · rw [List.concat_eq_append] at cut ⊢
          obtain ⟨previous, shape, -⟩ := cut.exists_comma ⟨ts, previous?⟩ (by simp)
          obtain rfl : previous? = some previous := shape
          rw [List.append_assoc, List.singleton_append] at cut ⊢
          have last : (join (xs ++ [⟨ts, some previous⟩])).getLast? =
              some previous := by
            simp [Chunk.all, ← List.append_assoc]
          rw [last, commaBehind, List.getLast?_concat]
          refine ⟨rfl, fun comma same => ?_⟩
          obtain rfl : previous = comma := by simpa using same
          exact cut.isListComma
      refine ⟨join xs, o, inner, c, comma?.toList ++ join ys, fields,
        by simp [Chunk.all], brace, pair, inside, found, ?_, before.2, ?_⟩
      · have first : (extent (o :: (inner ++ [c]))).start = o.start := rfl
        have last : (extent (o :: (inner ++ [c]))).stop = c.stop := by
          rw [extent, ← List.cons_append, List.getLast?_concat]
          rfl
        rw [after, before.1, ← first, ← last]
        exact (Option.some.inj made).symm
      · rw [after]
        rintro comma rfl
        exact cut.isListComma

theorem IsListComma.text {body : List Token} {comma : Token}
    (h : IsListComma body comma) : comma.text = [','] := by
  have isComma := h.1
  simp only [Token.isPunct, Bool.and_eq_true, beq_iff_eq] at isComma
  rw [Token.text_of_punct isComma.1, isComma.2]

section Records

variable {text : Text} {front inner before after back : List Token}
  {opener closer o c : Token} {fields : List Field}

private theorem fields_placed
    (lexed : Lexed 0 text (front ++ o :: (inner ++ c :: back)) none)
    (balanced : Balanced inner)
    (read : fieldsOf (chunksOf inner) = .ok fields) :
    (∀ field ∈ fields, field.Placed text ⟨o.start, c.stop⟩) ∧
      fields.Pairwise fun field field' => field.span.stop ≤ field'.span.start := by
  obtain ⟨chunks, cut, rfl⟩ := balanced.exists_cut
  rw [chunksOf_join cut] at read
  obtain ⟨low, behind⟩ :=
    List.pairwise_cons.1 (List.pairwise_append.1 lexed.pairwise).2.1
  obtain ⟨row, -, high⟩ := List.pairwise_append.1 behind
  refine ⟨fun field mem => ?_, pairwise_fields read row⟩
  obtain ⟨chunk, inside, isField⟩ := mem_fields read mem
  obtain ⟨value, some, sublist, span⟩ := fieldOf_reaches isField
  obtain ⟨xs, ys, rfl⟩ := List.append_of_mem inside
  have within : value.Sublist (join (xs ++ chunk :: ys)) := by
    rw [join_append, join_cons, Chunk.all, List.append_assoc]
    exact sublist.trans
      ((List.sublist_append_left _ _).trans (List.sublist_append_right _ _))
  constructor
  · obtain ⟨t, memT, u, memU, same⟩ := reaches_extent some
    have below := low t (List.mem_append_left _ (within.subset memT))
    have above := high u (within.subset memU) c (by simp)
    have := o.start_lt_stop
    have := c.start_lt_stop
    rw [span, same]
    dsimp only
    omega
  · rw [span]
    exact extent_ordered (row.sublist within) some
  · have shape : front ++ o :: (join (xs ++ chunk :: ys) ++ c :: back) =
        front ++ o :: join xs ++ (chunk.tokens ++
          (chunk.comma?.toList ++ (join ys ++ c :: back))) := by
      simp [Chunk.all]
    rw [shape] at lexed
    exact fieldOf_spells lexed cut.append_right.balanced_head isField

private theorem record_placed
    (lexed : Lexed 0 text (front ++ opener ::
      (before ++ o :: (inner ++ c :: after) ++ closer :: back)) none)
    (opens : opener.text = ['[']) (closes : closer.text = [']'])
    (brace : o.text = ['{']) (pair : o.Pairs c) (balanced : Balanced inner)
    (read : fieldsOf (chunksOf inner) = .ok fields)
    (ahead : ∀ comma ∈ before.getLast?,
      IsListComma (before ++ o :: (inner ++ c :: after)) comma)
    (behind : ∀ comma ∈ after.head?,
      IsListComma (before ++ o :: (inner ++ c :: after)) comma) :
    Record.Placed text ⟨opener.start, closer.stop⟩
      (before ++ o :: (inner ++ c :: after))
      ⟨⟨o.start, c.stop⟩, firsts [] fields, after.head?.map Token.span,
        before.getLast?.map Token.span⟩ := by
  -- the same tokens, seen from each place where two of them can meet
  have atOpener : front ++ opener ::
      (before ++ o :: (inner ++ c :: after) ++ closer :: back) =
        front ++ opener ::
          (before ++ o :: (inner ++ c :: (after ++ closer :: back))) := by
    simp
  rw [atOpener] at lexed
  have atBrace := lexed
  rw [← List.cons_append, ← List.append_assoc] at atBrace
  have atEnd := atBrace
  rw [← List.cons_append, ← List.append_assoc] at atEnd
  have first : o.first = '{' := (List.cons.inj brace).1
  have closing : c.text = ['}'] :=
    pair.closer_text (by rw [first]; rfl)
  have openerStop : opener.stop = opener.start + 1 := by rw [Token.stop, opens]; rfl
  have closerStop : closer.stop - 1 = closer.start := by
    rw [Token.stop, closes]; rfl
  have fieldsPlaced := fields_placed atBrace balanced read
  constructor
  · have apart :=
      (List.pairwise_cons.1 (List.pairwise_append.1 lexed.pairwise).2.1).1 o (by
        simp)
    have apart' :=
      (List.pairwise_cons.1 (List.pairwise_append.1 atEnd.pairwise).2.1).1
      closer (by simp)
    have := opener.start_lt_stop
    have := closer.start_lt_stop
    dsimp only
    omega
  · obtain ⟨middle, slice⟩ := atBrace.slice_between
    rw [brace, closing] at slice
    exact ⟨middle, slice⟩
  · intro span found
    obtain ⟨comma, head, rfl⟩ := Option.map_eq_some_iff.1 found
    obtain ⟨after, rfl⟩ := List.head?_eq_some_iff.1 head
    have isComma := behind comma head
    have atComma : Lexed 0 text
        (front ++ opener :: before ++ o :: inner ++ [c] ++ comma ::
          (after ++ closer :: back)) none := by
      simpa using atEnd
    have slice : comma.span.slice text = comma.text := atComma.slice_eq
    refine ⟨⟨comma, isComma, rfl⟩, ?_, atEnd.adjoins_next⟩
    rw [slice, isComma.text]
  · have adjoins := atEnd.adjoins_iff
    dsimp only
    rw [closerStop, adjoins, Option.map_eq_none_iff, List.head?_eq_none_iff]
  · intro span found
    obtain ⟨comma, last, rfl⟩ := Option.map_eq_some_iff.1 found
    obtain ⟨before, rfl⟩ := List.getLast?_eq_some_iff.1 last
    have isComma := ahead comma last
    have atComma := atBrace
    rw [← List.cons_append, ← List.append_assoc, List.append_assoc,
      List.singleton_append] at atComma
    have slice : comma.span.slice text = comma.text := atComma.slice_eq
    refine ⟨⟨comma, isComma, rfl⟩, ?_, atComma.adjoins_next⟩
    rw [slice, isComma.text]
  · have adjoins := lexed.adjoins_iff
    dsimp only
    rw [← openerStop, adjoins, Option.map_eq_none_iff, List.getLast?_eq_none_iff]
  · exact fun field mem =>
      fieldsPlaced.1 field ((firsts_sublist [] fields).subset mem)
  · exact fieldsPlaced.2.sublist (firsts_sublist [] fields)

end Records

/-! ## Import statements -/

private theorem importOf_reaches {s : Statement} {i : Import}
    (read : importOf s = .ok i) :
    Reaches s.all i.span := by
  obtain ⟨t, source, head, last, -, span, -⟩ := importOf_span read
  refine ⟨t, List.mem_append_left _ (List.mem_of_mem_head? head),
    s.semicolon?.getD source, ?_, span⟩
  cases semicolon : s.semicolon? with
  | none => exact List.mem_append_left _ (List.mem_of_getLast? last)
  | some c => exact List.mem_append_right _ (by simp [semicolon])

private theorem pairwise_imports {ss : List Statement} {imports : List Import}
    (h : importsOf ss = .ok imports)
    (row : (ss.flatMap Statement.all).Pairwise fun t t' => t.stop ≤ t'.start) :
    imports.Pairwise fun i i' => i.span.stop ≤ i'.span.start := by
  induction ss generalizing imports with
  | nil =>
      cases h
      exact .nil
  | cons s ss ih =>
      rw [importsOf] at h
      obtain ⟨i, here, rest⟩ := bind_eq_ok_iff.1 h
      obtain ⟨later, behind, rfl⟩ := map_eq_ok_iff.1 rest
      rw [List.flatMap_cons] at row
      obtain ⟨-, rowBehind, apart⟩ := List.pairwise_append.1 row
      refine List.pairwise_cons.2 ⟨fun i' mem => ?_, ih behind rowBehind⟩
      obtain ⟨before, after, split⟩ := List.append_of_mem mem
      rw [split] at behind
      obtain ⟨xs, s', ys, rfl, -, read, -⟩ := exists_statement behind
      have there : Reaches ((xs ++ s' :: ys).flatMap Statement.all) i'.span :=
        (importOf_reaches read).mono fun t inside =>
          List.mem_flatMap.2 ⟨s', by simp, inside⟩
      exact (importOf_reaches here).apart there apart

private theorem import_starts {text : Text} {tokens : List Token}
    {imports : List Import} {i : Import} (lexed : Lexed 0 text tokens none)
    (read : importsOf (statements none 0 tokens) = .ok imports)
    (mem : i ∈ imports) : ∃ rest, i.span.slice text = "import".toList ++ rest := by
  obtain ⟨before, after, rfl⟩ := List.append_of_mem mem
  obtain ⟨xs, s, ys, split, -, isImport, -⟩ := exists_statement read
  obtain ⟨front, t, u, back, rfl, shape, start, -⟩ := exists_of_statements split
  obtain ⟨t', source, head, -, -, span, -⟩ := importOf_span isImport
  obtain rfl : t = t' := by simpa [shape] using head
  have among : s ∈ statements none 0 (front ++ t :: u ++ back) := by
    rw [split]
    simp
  have covers := covers_statement lexed.pairwise among isImport (t := t)
    (by simp [shape])
  have shape' : front ++ t :: u ++ back = front ++ t :: (u ++ back) := by simp
  rw [shape'] at lexed
  rw [← text_of_starts start, show i.span = ⟨t.start, i.span.stop⟩ by rw [span]]
  exact lexed.slice_from covers.2

/-! ## Documents -/

theorem records_placed {text listName : Text} {front back : List Token}
    {opener closer : Token} {chunks : List Chunk}
    {elements : Bracketed.Elements}
    (lexed : Lexed 0 text (front ++ opener :: (join chunks ++ closer :: back)) none)
    (located : Located listName front opener chunks closer back)
    (read : elementsOf none chunks = .ok elements) :
    ∀ record ∈ elements.records,
      record.Placed text ⟨opener.start, closer.stop⟩ (join chunks) := by
  intro record mem
  have opens := located.opener_text
  have closes := located.closer_text
  obtain ⟨before, o, inner, c, after, fields, body, brace, pair, balanced,
    fieldsRead, rfl, ahead, behind⟩ := exists_place located.cut read mem
  rw [body] at lexed ahead behind ⊢
  exact record_placed lexed opens closes brace pair balanced fieldsRead ahead behind

/-- Where everything that is read stands in the text. -/
theorem scan_placed {text listName : Text} {doc : Document}
    (scanned : scan text listName = .ok doc) :
    ∃ front opener body closer back,
      tokenize text = .ok (front ++ opener :: (body ++ closer :: back)) ∧
        Balanced body ∧
        opener.text = ['['] ∧ closer.text = [']'] ∧
        doc.text = text ∧ doc.listSpan = ⟨opener.start, closer.stop⟩ ∧
        doc.Placed body := by
  obtain ⟨recordsApart, -⟩ := pairwise_records scanned
  obtain ⟨front, opener, chunks, closer, back, tokenized, located⟩ :=
    exists_located scanned
  rw [scan_eq tokenized located] at scanned
  obtain ⟨elements, read, rest⟩ := bind_eq_ok_iff.1 scanned
  obtain ⟨imports, found, rfl⟩ := map_eq_ok_iff.1 rest
  have lexed := tokenize_eq_ok_iff.1 tokenized
  have opens := located.opener_text
  have closes := located.closer_text
  refine ⟨front, opener, join chunks, closer, back, tokenized,
    located.cut.balanced, opens, closes,
    rfl, rfl, ?_, ?_, recordsApart, ?_, fun i mem =>
      import_starts lexed found mem, ?_⟩
  · obtain ⟨inner, slice⟩ := lexed.slice_between
    rw [opens, closes] at slice
    exact ⟨inner, slice⟩
  · exact records_placed lexed located read
  · rw [elementsOf_trailingComma read]
    exact located.cut.trailing_iff
  · exact pairwise_imports found
      (lexed.pairwise.sublist (statements_sublist none 0 _))

/-! ## A list of a record and a number -/

/-- Commas of all kinds: of the list, of a record, of a call and in a comment. -/
def mixedList : Text :=
  "import a from './a';\nconst versions=[\x7bid:'x',a,f:g(1,2)\x7d /*,*/,3,]".toList

def mixedRecord : Record where
  span := ⟨37, 56⟩
  fields := [⟨"id".toList, .string ['x'] '\'', ⟨41, 44⟩⟩,
    ⟨['a'], .name ['a'], ⟨45, 46⟩⟩, ⟨['f'], .expr, ⟨49, 55⟩⟩]
  comma? := some ⟨62, 63⟩
  previousComma? := none

def mixedDocument : Document where
  text := mixedList
  listSpan := ⟨36, 66⟩
  imports := [⟨⟨0, 20⟩, "./a".toList, some ['a'], [['a']]⟩]
  records := [mixedRecord]
  elementCount := 2
  trailingComma := true

theorem scan_placed_mixedList : scan mixedList defaultListName = .ok mixedDocument ∧
    ∃ body, mixedDocument.Placed body := by
  have scanned : scan mixedList defaultListName = .ok mixedDocument := by
    decide +kernel
  obtain ⟨-, -, body, -, -, -, -, -, -, -, -, placed⟩ := scan_placed scanned
  exact ⟨scanned, body, placed⟩

end Showcase.Registry

import Showcase.Proofs.Registry.Quoting
import Showcase.Proofs.Registry.Records
import Showcase.Proofs.Registry.Imports
import Showcase.Proofs.Registry.Readable
import Showcase.Registry.Edit

/-!
# Writing a field

A literal takes the place of a field's value.  The list is found where it was, and
its content is the old one but for the entry that is written.
-/

namespace Showcase.Registry

/-- Entries with a literal in place of the first entry of a name.  Where a shorthand
field stood, a literal alone is no field. -/
def rewrite (name : Text) (value : FieldValue) : List Entry → List Entry
  | [] => []
  | entry :: entries =>
      if entry.name = name then
        if entry.shorthand then entries else ⟨name, value, false⟩ :: entries
      else entry :: rewrite name value entries

private theorem rewrite_append {name : Text} {es : List Entry}
    (others : ∀ e ∈ es, e.name ≠ name) (value : FieldValue) (es' : List Entry) :
    rewrite name value (es ++ es') = es ++ rewrite name value es' := by
  induction es with
  | nil => rfl
  | cons e es ih =>
      rw [List.cons_append, rewrite, if_neg (others e (by simp)),
        ih fun e mem => others e (by simp [mem])]
      rfl

private theorem rewrite_between {name : Text} {es : List Entry}
    (others : ∀ e ∈ es, e.name ≠ name) {entry : Entry}
    (here : entry.name = name) (value : FieldValue) (es' : List Entry) :
    rewrite name value (es ++ entry :: es') =
      es ++ ((rewrite name value [entry]) ++ es') := by
  rw [rewrite_append others, rewrite, rewrite, if_pos here, if_pos here]
  split <;> rfl

/-- What two lists say, one of which has `value` for a field of the other one's
`record`. -/
structure Exchanged (name : Text) (value : FieldValue)
    (chunks chunks' : List Chunk) (before : List Record) (record : Record)
    (after : List Record) (es : List (Option (List Entry)))
    (entries : List Entry) (es' : List (Option (List Entry)))
    (trailing : Bool) : Prop where
  old : contentOf chunks = .ok ⟨es ++ some entries :: es', trailing⟩
  new : contentOf chunks' = .ok ⟨es ++ some (rewrite name value entries) :: es',
    trailing⟩
  earlier : recordsOf es = before.map Record.content
  later : recordsOf es' = after.map Record.content
  content : visible entries = record.content

/-! ## The written literal among the tokens -/

theorem unbroken_of_plain {ts : List Token}
    (h : ∀ t ∈ ts, t.closer? = none ∧ t.closes = false ∧ t.isPunct ',' = false) :
    Unbroken ts := by
  induction ts with
  | nil => exact ⟨.nil, rfl⟩
  | cons t ts ih =>
      obtain ⟨opening, closing, noComma⟩ := h t (by simp)
      obtain ⟨balanced, nothing⟩ := ih fun t mem => h t (by simp [mem])
      refine ⟨.plain opening closing balanced, ?_⟩
      rw [seek, Token.isPunctIn_comma, noComma]
      simpa [opening] using nothing

theorem Token.plain_of_kind {t : Token} (h : t.kind ≠ .punct) :
    t.closer? = none ∧ t.closes = false ∧ t.isPunct ',' = false := by
  simp [closer?, closes, isPunct, h]

theorem Token.plain_of_colon {t : Token} (h : t.text = [':']) :
    t.closer? = none ∧ t.closes = false ∧ t.isPunct ',' = false := by
  obtain ⟨first, -⟩ := List.cons.inj h
  simp [closer?, closes, isPunct, first, closerOf?, isCloser]

/-- A literal in place of the tokens of a field's value. -/
theorem exists_written {piece : List Token} {field : Field} {lit : Token}
    {value : Text} (balanced : Balanced piece)
    (h : fieldOf piece = .ok (some field)) (string : lit.kind = .string)
    (decoded : lit.value = .ok value) :
    ∃ front t ts, piece = front ++ t :: ts ∧ field.span = extent (t :: ts) ∧
      Unbroken (front ++ [lit]) ∧ Balanced (t :: ts) ∧
      (∀ p ∈ front.getLast?, p.Inert) ∧
      ∃ entry written?, entryOf piece = .ok (some entry) ∧ entry.name = field.name ∧
        entryOf (front ++ [lit]) = .ok written? ∧
        written?.toList = rewrite field.name (.string value lit.first) [entry] := by
  have litPlain := Token.plain_of_kind (t := lit) (by simp [string])
  have entry : entryOf piece =
      .ok (some ⟨field.name, field.value, piece.tail.isEmpty⟩) := by
    rw [entryOf, h]
    rfl
  rcases fieldOf_cases h with ⟨key, rfl, named, rfl⟩ |
    ⟨key, colon, v, vs, rfl, notPunct, keyed, isColon, -, span⟩
  · refine ⟨[], key, [], rfl, rfl, unbroken_of_plain (by simpa using litPlain),
      balanced, by simp, _, none, entry, rfl, ?_, ?_⟩
    · simp [entryOf, fieldOf, string, Bracketed.keyName, decoded]
    · simp [rewrite]
  · have keyPlain := Token.plain_of_kind notPunct
    have colonPlain := Token.plain_of_colon isColon
    have head : Balanced [key, colon] :=
      .plain keyPlain.1 keyPlain.2.1
      (balanced_singleton colonPlain.1 colonPlain.2.1)
    refine ⟨[key, colon], v, vs, rfl, span, unbroken_of_plain ?_,
      Balanced.of_append (show Balanced ([key, colon] ++ v :: vs) from
        balanced) head, ?_, _,
      some ⟨field.name, .string value lit.first, false⟩, entry, rfl, ?_, ?_⟩
    · simpa using ⟨keyPlain, colonPlain, litPlain⟩
    · simpa using Token.Inert.of_text (by rw [isColon]; decide)
    · simp [entryOf, fieldOf, notPunct, keyed, isColon, valueOf, string, decoded]
    · simp [rewrite]

private theorem Cut.punct_before {xs ys : List Chunk} {chunk : Chunk}
    (h : Cut (xs ++ chunk :: ys)) :
    ∀ t ∈ (join xs).getLast?, t.kind = .punct := by
  rcases List.eq_nil_or_concat xs with rfl | ⟨xs, x, rfl⟩
  · simp
  · rw [List.concat_eq_append] at h ⊢
    rw [List.append_assoc] at h
    cases h.append_right with
    | @more ts comma _ _ isComma _ =>
        simp only [Token.isPunct, Bool.and_eq_true, beq_iff_eq] at isComma
        simpa [Chunk.all, List.getLast?_append, List.getLast?_cons] using isComma.1

/-- In a group, only a comma or the bracket in front stands before a chunk. -/
private theorem Cut.inert_before {xs ys : List Chunk} {chunk : Chunk}
    (h : Cut (xs ++ chunk :: ys)) {o : Token} (opening : o.Inert)
    {ts : List Token} (inert : ∀ p ∈ ts.getLast?, p.Inert) :
    ∃ p, (o :: (join xs ++ ts)).getLast? = some p ∧ p.Inert := by
  refine ⟨_, List.getLast?_cons, ?_⟩
  rw [List.getLast?_append]
  cases last : ts.getLast? with
  | some p => exact inert p last
  | none =>
      cases comma : (join xs).getLast? with
      | some p => exact .of_kind (by simp [h.punct_before p comma])
      | none => exact opening

private theorem Cut.inert_behind {xs ys : List Chunk} {ts : List Token}
    {comma? : Option Token} {c : Token} (h : Cut (xs ++ ⟨ts, comma?⟩ :: ys))
    (punct : c.kind = .punct) :
    ∃ t, (comma?.toList ++ join ys ++ [c]).head? = some t ∧ t.Inert := by
  cases h.append_right with
  | last _ _ => exact ⟨c, rfl, .of_kind (by simp [punct])⟩
  | @more _ comma _ _ isComma _ =>
      simp only [Token.isPunct, Bool.and_eq_true, beq_iff_eq] at isComma
      exact ⟨comma, rfl, .of_kind (by simp [isComma.1])⟩

theorem unbroken_group {o c : Token} {inner : List Token} (pair : o.Pairs c)
    (brace : o.text = ['{']) (inside : Balanced inner) :
    Unbroken (o :: (inner ++ [c])) := by
  obtain ⟨first, -⟩ := List.cons.inj brace
  refine ⟨.group pair inside .nil, ?_⟩
  have noComma : o.isPunct ',' = false := by simp [Token.isPunct, first]
  rw [seek, Token.isPunctIn_comma, noComma]
  simp only [pair.1, Option.isSome_some, if_true, Bool.false_eq_true, if_false]
  exact seek_group pair inside _ []

private theorem entriesOf_between {xs ys : List Chunk} {piece : Chunk}
    {es es' : List Entry} {e? : Option Entry} (front : entriesOf xs = .ok es)
    (back : entriesOf ys = .ok es') (read : entryOf piece.tokens = .ok e?) :
    entriesOf (xs ++ piece :: ys) = .ok (es ++ (e?.toList ++ es')) := by
  rw [entriesOf_append, front, ok_bind, entriesOf, read, ok_bind, back]
  rfl

/-- The tokens `t :: ts` of a field's value stand between `front` and `back`. -/
structure Valued (field : Field) (tokens front : List Token) (t : Token)
    (ts back : List Token) :
    Prop where
  tokens_eq : tokens = front ++ t :: (ts ++ back)
  span : field.span = extent (t :: ts)
  slot : Slot front (t :: ts) back

theorem Valued.widen {field : Field} {tokens front ts back : List Token} {t : Token}
    (h : Valued field tokens front t ts back) (front' back' : List Token) :
    Valued field (front' ++ tokens ++ back') (front' ++ front) t ts
      (back ++ back') where
  tokens_eq := by simp [h.tokens_eq]
  span := h.span
  slot := h.slot.widen front' back'

private theorem exists_written_record {tokens : List Token}
    {comma? previousComma? : Option Span} {record : Record}
    {entries : List Entry} {name : Text} {field : Field} {lit : Token}
    {value : Text} (balanced : Balanced tokens)
    (read : recordOf tokens comma? previousComma? = .ok (some record))
    (element : elementOf tokens = .ok (some entries))
    (found : record.field? name = some field) (string : lit.kind = .string)
    (decoded : lit.value = .ok value) :
    ∃ front t ts back, Valued field tokens front t ts back ∧
      Unbroken (front ++ lit :: back) ∧
      elementOf (front ++ lit :: back) =
        .ok (some (rewrite name (.string value lit.first) entries)) := by
  cases group : groupBody? tokens with
  | none => simp [recordOf, group] at read
  | some inner =>
      obtain ⟨o, c, rfl, brace, pair, inside⟩ := groupBody?_eq_some balanced group
      obtain ⟨chunks, cut, rfl⟩ := inside.exists_cut
      simp only [recordOf, elementOf, group, chunksOf_join cut] at read element
      obtain ⟨fields, fieldsRead, made⟩ := map_eq_ok_iff.1 read
      obtain ⟨entries', entriesRead, same⟩ := map_eq_ok_iff.1 element
      cases same
      obtain rfl := Option.some.inj made
      rw [Record.field?, find?_firsts name rfl] at found
      obtain ⟨xs, ⟨ts, comma⟩, ys, es, es', rfl, isField, named, front,
          back, others⟩ :=
        exists_piece fieldsRead found
      obtain ⟨ahead, t, rest, rfl, span, unbroken, whole, inert, entry, written?,
        old, entryName, new,
        written⟩ := exists_written cut.unbroken.1 isField string decoded
      have cut' := cut.replace unbroken (by simp)
      have entriesOld : entries = es ++ (entry :: es') :=
        Except.ok.inj (entriesRead.symm.trans (entriesOf_between front back old))
      have entriesNew : entriesOf (xs ++ ⟨ahead ++ [lit], comma⟩ :: ys) =
          .ok (rewrite name (.string value lit.first) entries) := by
        rw [entriesOf_between front back new, entriesOld,
          rewrite_between others (entryName.trans named), written, named]
      have shape : o :: (join xs ++ ahead) ++ lit ::
          (comma.toList ++ join ys ++ [c]) =
            o :: (join (xs ++ ⟨ahead ++ [lit], comma⟩ :: ys) ++ [c]) := by
        simp [Chunk.all]
      refine ⟨o :: (join xs ++ ahead), t, rest, comma.toList ++ join ys ++ [c],
        ⟨?_, span, whole, ?_, ?_⟩, ?_, ?_⟩
      · simp [Chunk.all]
      · exact cut.inert_before (.of_text (by simp [brace])) inert
      · exact cut.inert_behind pair.2
      · rw [shape]
        exact unbroken_group pair brace cut'.balanced
      · rw [shape, elementOf, groupBody?_of_pair brace pair cut'.balanced]
        simp only [chunksOf_join cut', entriesNew, map_ok]

private theorem exists_written_list {listName : Text} {front : List Token}
    {opener : Token} {chunks : List Chunk} {closer : Token} {back : List Token}
    {elements : Bracketed.Elements} {before after : List Record}
    {record : Record} {name : Text} {field : Field} {value : Text} (lit : Token)
    (located : Located listName front opener chunks closer back)
    (read : elementsOf none chunks = .ok elements)
    (split : elements.records = before ++ record :: after)
    (found : record.field? name = some field) (string : lit.kind = .string)
    (decoded : lit.value = .ok value) :
    ∃ ahead t ts behind chunks' es entries es' trailing,
      Valued field (front ++ opener :: (join chunks ++ closer :: back))
        ahead t ts behind ∧
      front ++ opener :: (join chunks' ++ closer :: back) = ahead ++ lit :: behind ∧
      Located listName front opener chunks' closer back ∧
      Exchanged name (.string value lit.first) chunks chunks' before record after
        es entries es'
        trailing := by
  obtain ⟨xs, ⟨tokens, comma?⟩, ys, es, entries, es', rfl, among⟩ :=
    exists_chunk read split
  obtain ⟨ahead, t, ts, behind, valued, unbroken, element'⟩ := exists_written_record
    located.cut.unbroken.1 among.read among.element found string decoded
  have cut' := located.cut.replace unbroken (by simp)
  have notEmpty : tokens ≠ [] := by
    rintro rfl
    simpa using valued.tokens_eq
  -- whether a comma stands behind the last chunk does not depend on the tokens
  -- of this one
  have trailing :
      ((xs ++ ⟨ahead ++ lit :: behind, comma?⟩ :: ys).getLast?.bind
        Chunk.comma?).isSome =
      ((xs ++ ⟨tokens, comma?⟩ :: ys).getLast?.bind Chunk.comma?).isSome := by
    cases ys with
    | nil => simp
    | cons y ys => simp [List.getLast?_append, List.getLast?_cons]
  refine ⟨front ++ opener :: (join xs ++ ahead), t, ts,
    behind ++ comma?.toList ++ join ys ++ closer :: back,
    xs ++ ⟨ahead ++ lit :: behind, comma?⟩ :: ys, es, entries, es',
    ((xs ++ ⟨tokens, comma?⟩ :: ys).getLast?.bind Chunk.comma?).isSome, ?_, by
      simp [Chunk.all],
    located.replace cut', ⟨?_, ?_, among.earlier, among.later, among.content⟩⟩
  · simpa [Chunk.all] using
      valued.widen (front ++ opener :: join xs) (comma?.toList ++ join ys ++
        closer :: back)
  · rw [contentOf,
      elementContents_between among.front among.back notEmpty among.element,
      map_ok]
  · rw [contentOf, elementContents_between among.front among.back (by simp)
      element', map_ok, trailing]

/-! ## The written text -/

private theorem Lexed.replaceLiteral {text : Text} {front ts back : List Token}
    {t last : Token} {q : Char} {body : Text}
    (h : Lexed 0 text (front ++ t :: (ts ++ back)) none)
    (final : (t :: ts).getLast? = some last)
    (literal : Lexeme (some .string) (q :: body)) :
    t.start ≤ last.stop ∧ last.stop ≤ text.length ∧
      ∃ tokens, Lexed 0 (text.take t.start ++ q :: body ++ text.drop last.stop)
        tokens none ∧
        bare tokens = bare (front ++ .string q body 0 :: back) := by
  have genuine := h.genuine t (by simp)
  have quoted : isQuote q = true := by
    cases literal with
    | string quoted _ => exact quoted
  obtain ⟨before, middle, after, rfl, start, stop, -, first, -, rest⟩ := h.window
  obtain ⟨back', moved, same⟩ := rest.move (0 + before.length + (q :: body).length)
  have written : Lexed (0 + before.length) (q :: body ++ after)
      (.string q body (0 + before.length) :: back') none :=
        .token literal trivial moved
  have all := Lexed.append
    (first.reseat_quote genuine.first_ne_newline quoted) written
  have stop := stop last final
  rw [Nat.zero_add] at start stop
  have taken : (before ++ (middle ++ after)).take t.start = before := by
    rw [start, List.take_left]
  have dropped : (before ++ (middle ++ after)).drop last.stop = after := by
    rw [stop, ← List.append_assoc, List.drop_left]
  refine ⟨?_, ?_, front ++ .string q body (0 + before.length) :: back', ?_, ?_⟩
  · rw [start, stop]
    simp
  · rw [stop]
    simp
  · rw [taken, dropped, List.append_assoc]
    exact all
  · have same' : bare back' = bare back := same
    simp [same', Token.bare]

/-- A text with the literal `lit` in place of a field's value. The list in its
tokens is that of the old text with the chunks `chunks'`. -/
structure WrittenText (listName text : Text) (field : Field) (lit new : Text)
    (tokens : List Token) (front : List Token) (opener : Token)
    (chunks' : List Chunk) (closer : Token) (back : List Token)
    (tokens' : List Token) : Prop where
  text_eq : new = text.take field.span.start ++ lit ++ text.drop field.span.stop
  splice : field.span.splice text lit = .ok new
  inLine : ∃ c rest, text.drop field.span.start = c :: rest ∧ c ≠ '\n'
  tokenized : tokenize new = .ok tokens'
  same : bare tokens' = bare (front ++ opener :: (join chunks' ++ closer :: back))
  among : ∀ t ∈ tokens', t.bare ∈ bare tokens ∨ t.text = lit
  readable : Readable none 0 tokens'
  located : Located listName front opener chunks' closer back

private theorem Valued.exists_inLine {field : Field} {text : Text}
    {tokens front ts back : List Token} {t : Token}
    (h : Valued field tokens front t ts back)
    (lexed : Lexed 0 text tokens none) :
    ∃ c rest, text.drop field.span.start = c :: rest ∧ c ≠ '\n' := by
  obtain ⟨rfl, span, -⟩ := h
  obtain ⟨before, middle, after, rfl, start, -, ⟨rest, isText⟩, -⟩ := lexed.window
  refine ⟨t.first, t.rest ++ rest, ?_, (lexed.genuine t (by simp)).first_ne_newline⟩
  have start' : field.span.start = before.length := by
    rw [span]
    exact start.trans (Nat.zero_add _)
  rw [start', List.drop_left, isText]
  rfl

theorem exists_written_tokens {text listName : Text} {front : List Token}
    {opener : Token} {chunks : List Chunk} {closer : Token} {back : List Token}
    {doc : Document} {before after : List Record} {record : Record}
    {name : Text} {field : Field} (value quoteText : Text)
    (h : scan text listName = .ok doc)
    (tokens : tokenize text =
      .ok (front ++ opener :: (join chunks ++ closer :: back)))
    (located : Located listName front opener chunks closer back)
    (split : doc.records = before ++ record :: after)
    (found : record.field? name = some field) :
    ∃ new tokens' chunks' es entries es' trailing,
      WrittenText listName text field (quote value quoteText) new
        (front ++ opener :: (join chunks ++ closer :: back)) front opener chunks'
        closer back tokens' ∧
      Exchanged name (.string value (literalQuote quoteText)) chunks chunks'
        before record after es
        entries es' trailing := by
  have scanned := h
  rw [scan_eq tokens located] at scanned
  obtain ⟨elements, read, rest⟩ := bind_eq_ok_iff.1 scanned
  obtain ⟨imports, statements', made⟩ := map_eq_ok_iff.1 rest
  have split' : elements.records = before ++ record :: after := by
    rw [← split, ← made]
  obtain ⟨body, quoted, literal⟩ := quote_lexeme value quoteText
  have decoded : decode (literalQuote quoteText) body = .ok value := by
    have := decode_quote value quoteText
    rwa [quoted, List.tail_cons] at this
  obtain ⟨ahead, t, ts, behind, chunks', es, entries, es', trailing, valued,
      shape', located', exchanged⟩ :=
    exists_written_list (.string (literalQuote quoteText) body 0) located read
    split' found rfl
      decoded
  obtain ⟨last, final⟩ : ∃ last, (t :: ts).getLast? = some last :=
    ⟨_, List.getLast?_cons⟩
  have lexed := tokenize_eq_ok_iff.1 tokens
  have inLine := valued.exists_inLine lexed
  rw [valued.tokens_eq] at lexed
  obtain ⟨ordered, inside, tokens', lexed', same⟩ :=
    lexed.replaceLiteral final literal
  have start : field.span.start = t.start := by rw [valued.span]; rfl
  have stop : field.span.stop = last.stop := by rw [valued.span, extent, final]; rfl
  refine ⟨_, tokens', chunks', es, entries, es', trailing,
    ⟨rfl, ?_, inLine, ?_, shape' ▸ same, ?_, ?_, located'⟩, exchanged⟩
  · exact Span.splice_eq_ok _ (by rw [start, stop]; exact ordered)
      (by rw [stop]; exact inside)
  · rw [start, stop, quoted]
    exact tokenize_eq_ok_iff.2 lexed'
  · intro u mem
    have mem' : u.bare ∈ bare tokens' := List.mem_map_of_mem mem
    rw [same, bare_append, bare_cons, List.mem_append, List.mem_cons] at mem'
    rw [valued.tokens_eq, quoted]
    simp only [bare_append, bare_cons, List.mem_append, List.mem_cons]
    rcases mem' with ahead | here | behind
    · exact .inl (.inl ahead)
    · exact .inr (congrArg Token.text here)
    · exact .inl (.inr (.inr (.inr behind)))
  · have old : Readable none 0 (ahead ++ (t :: ts ++ behind)) :=
      ⟨imports, valued.tokens_eq ▸ statements'⟩
    have balanced := located.balanced
    rw [valued.tokens_eq] at balanced
    obtain ⟨imports', read⟩ := valued.slot.exchange balanced
      (show Token.IsSource (.string (literalQuote quoteText) body 0) from
        ⟨rfl, value, decoded⟩) old
    obtain ⟨_, found, -⟩ := map_eq_ok_iff.1
      ((importsOf_content (statements_tokens_congr same)).trans
        (by rw [read, map_ok]))
    exact ⟨_, found⟩

/-- The imports say what they said unless one of them runs into the list. -/
theorem WrittenText.imports_eq {listName text lit new : Text} {field : Field}
    {front back : List Token} {opener closer : Token}
    {chunks chunks' : List Chunk} {tokens' : List Token} {doc : Document}
    (written : WrittenText listName text field lit new (front ++ opener ::
      (join chunks ++ closer :: back)) front opener chunks' closer back tokens')
    (h : scan text listName = .ok doc)
    (tokens : tokenize text =
      .ok (front ++ opener :: (join chunks ++ closer :: back)))
    (located : Located listName front opener chunks closer back)
    (apart : doc.Apart) :
    (importsOf (statements none 0 tokens')).map (·.map Import.content) =
      .ok (doc.imports.map Import.content) := by
  have clear := apart.clear tokens located h
  have kept := statements_replace located.pair located.cut.balanced
    written.located.cut.balanced clear
  obtain ⟨_, -, -, found, -⟩ := scan_says tokens h
  rw [importsOf_content (statements_tokens_congr written.same), kept, found]
  rfl

end Showcase.Registry

import Showcase.Proofs.Registry.Content

/-!
# Reading a registry

A text whose tokens hold the list is read from these tokens alone (`scan_eq`), and
every text that is read is of this kind (`exists_located`).
-/

namespace Showcase.Registry

/-! ## Tokens of a text -/

theorem Token.Genuine.notBlank {t : Token} (h : t.Genuine) :
    isBlank t.first = false := by
  cases blank : isBlank t.first with
  | false => rfl
  | true => exact absurd (Lexeme.eq_blank h blank).1 (by simp)

theorem Token.Genuine.first_ne_newline {t : Token} (h : t.Genuine) :
    t.first ≠ '\n' := by
  intro same
  have := h.notBlank
  rw [same] at this
  exact absurd this (by decide)

namespace Lexed

variable {start : Nat} {text : Text} {tokens : List Token} {next? : Option Char}

theorem genuine (h : Lexed start text tokens next?) : ∀ t ∈ tokens, t.Genuine := by
  induction h with
  | nil => simp
  | gap _ _ _ ih => exact ih
  | token lexeme _ _ ih =>
      intro t mem
      rcases List.mem_cons.1 mem with rfl | mem
      · exact lexeme
      · exact ih t mem

theorem bounds (h : Lexed start text tokens next?) :
    ∀ t ∈ tokens, start ≤ t.start ∧ t.stop ≤ start + text.length := by
  induction h with
  | nil => simp
  | gap _ _ _ ih =>
      intro t mem
      have := ih t mem
      simp only [List.length_append]
      omega
  | @token start kind c u text _ _ _ _ _ ih =>
      intro t mem
      rcases List.mem_cons.1 mem with rfl | mem
      · simp [Token.stop, Token.text]
      · have := ih t mem
        simp only [List.length_append]
        omega

/-- The tokens of a text stand one behind the other. -/
theorem pairwise (h : Lexed start text tokens next?) :
    tokens.Pairwise fun t t' => t.stop ≤ t'.start := by
  induction h with
  | nil => exact .nil
  | gap _ _ _ ih => exact ih
  | @token start kind c u text _ _ _ _ later ih =>
      refine .cons ?_ ih
      intro t mem
      exact (later.bounds t mem).1

/-- What stands before a token, and the text from the token on. -/
theorem cutBefore {front back : List Token} {t : Token}
    (h : Lexed start text (front ++ t :: back) next?) :
    ∃ before rest, text = before ++ (t.text ++ rest) ∧
      t.start = start + before.length ∧
      Lexed start before front (some t.first) ∧
      Lexed t.start (t.text ++ rest) (t :: back) next? := by
  obtain ⟨left, right, rfl, first, second, -, -⟩ := h.split
  obtain ⟨gap, rest, rfl, position, blank, here⟩ := second.firstToken
  refine ⟨left ++ gap, rest, by rw [List.append_assoc], ?_, ?_, here⟩
  · rw [position, List.length_append, Nat.add_assoc]
  · have follow : (gap ++ (t.text ++ rest)).head?.or next? =
        gap.head?.or (some t.first) := by
      cases gap <;> rfl
    rw [follow] at first
    have := first.append blank
    rwa [List.append_nil] at this

/-- The text of some tokens in a row, with the gaps between them, and what
stands before and behind it. -/
theorem window {front ts back : List Token} {t : Token}
    (h : Lexed start text (front ++ t :: (ts ++ back)) next?) :
    ∃ before middle after, text = before ++ (middle ++ after) ∧
      t.start = start + before.length ∧
      (∀ last ∈ (t :: ts).getLast?, last.stop = start + (before ++ middle).length) ∧
      (∃ rest, middle ++ after = t.text ++ rest) ∧
      Lexed start before front (some t.first) ∧
      Lexed t.start middle (t :: ts) (after.head?.or next?) ∧
      Lexed (start + (before ++ middle).length) after back next? := by
  obtain ⟨before, rest, rfl, position, first, here⟩ := h.cutBefore
  rw [← List.cons_append] at here
  obtain ⟨middle, after, shape, inside, behind, -, stop⟩ := here.split
  have length : t.start + middle.length = start + (before ++ middle).length := by
    rw [position, List.length_append, Nat.add_assoc]
  refine ⟨before, middle, after, by rw [shape], position, ?_, ⟨rest, shape.symm⟩,
    first, inside, ?_⟩
  · intro last mem
    rw [stop last mem, length]
  · rwa [length] at behind

theorem slice_eq {front back : List Token} {t : Token}
    (h : Lexed 0 text (front ++ t :: back) none) :
    (text.take t.stop).drop t.start = t.text := by
  rw [← List.nil_append back] at h
  obtain ⟨left, mid, after, rfl, start, stop, ⟨more, shape⟩, -, -, -⟩ := h.window
  have stop := stop t rfl
  rw [Nat.zero_add] at start stop
  have size : mid.length = t.text.length := by
    rw [Token.stop, start, List.length_append] at stop
    omega
  have same := congrArg (List.take mid.length) shape
  rw [List.take_left, size, List.take_left] at same
  rw [stop, start, ← List.append_assoc, List.take_left, List.drop_left, same]

end Lexed

theorem Token.start_lt_stop (t : Token) : t.start < t.stop := by
  simp [stop, text]

theorem Token.Genuine.closer? {t : Token} (h : t.Genuine) {c closer : Char}
    (text : t.text = [c]) (opening : closerOf? c = some closer) :
    t.closer? = some closer := by
  obtain ⟨rfl, -⟩ := List.cons.inj text
  unfold Genuine at h
  rw [text] at h
  have bracket : t.first = '{' ∨ t.first = '[' ∨ t.first = '(' := by
    unfold closerOf? at opening
    split at opening <;> simp_all
  have punct : t.kind = .punct := by
    cases kind : t.kind with
    | punct => rfl
    | string =>
        rw [kind] at h
        cases h with
        | string quoted _ => rcases bracket with
            b | b | b <;> simp [b, isQuote] at quoted
    | name =>
        rw [kind] at h
        cases h with
        | name named =>
            have := named t.first (by simp)
            rcases bracket with b | b | b <;> rw [b] at this <;>
              exact absurd this (by decide)
  simp [Token.closer?, punct, opening]

theorem Token.text_of_punct {t : Token} (punct : t.kind = .punct) :
    t.text = [t.first] := by
  rw [text, t.single punct]

theorem Token.Pairs.closer_text {o c : Token} (pair : o.Pairs c) {closer : Char}
    (opening : closerOf? o.first = some closer) : c.text = [closer] := by
  have closing := (Token.closer?_eq_some_iff.1 pair.1).2
  rw [Token.text_of_punct pair.2, Option.some.inj (closing.symm.trans opening)]

/-! ## The list in the tokens -/

/-- The list of the given name, between what stands before and behind it. -/
structure Located (listName : Text) (front : List Token) (opener : Token)
    (chunks : List Chunk) (closer : Token) (back : List Token) : Prop where
  balanced : Balanced (front ++ opener :: (join chunks ++ closer :: back))
  pair : opener.Pairs closer
  cut : Cut chunks
  found : listFrom? listName none
      (front ++ opener :: (join chunks ++ closer :: back)) =
    some (opener :: (join chunks ++ closer :: back))

theorem exists_located_of_listFrom? {listName : Text} {tokens suffix : List Token}
    (balanced : Balanced tokens) (genuine : ∀ t ∈ tokens, t.Genuine)
    (found : listFrom? listName none tokens = some suffix) :
    ∃ front opener chunks closer back,
      tokens = front ++ opener :: (join chunks ++ closer :: back) ∧
        Located listName front opener chunks closer back := by
  obtain ⟨⟨front, rfl⟩, opener, rest, rfl, bracket⟩ := listFrom?_suffix found
  have opening := (genuine opener (by simp)).closer? bracket
    (rfl : closerOf? '[' = some ']')
  obtain ⟨inner, closer, back, rfl, pair, inside⟩ := balanced.exists_group opening
  obtain ⟨chunks, cut, rfl⟩ := inside.exists_cut
  exact ⟨front, opener, chunks, closer, back, rfl, balanced, pair, cut, found⟩

section Located

variable {listName : Text} {front : List Token} {opener : Token}
  {chunks : List Chunk} {closer : Token} {back : List Token}

theorem Located.opener_text
    (located : Located listName front opener chunks closer back) :
    opener.text = ['['] := by
  obtain ⟨-, o, rest, same, bracket⟩ := listFrom?_suffix located.found
  obtain ⟨rfl, -⟩ := List.cons.inj same
  exact bracket

theorem Located.closer_text
    (located : Located listName front opener chunks closer back) :
    closer.text = [']'] := by
  have first : opener.first = '[' := (List.cons.inj located.opener_text).1
  exact located.pair.closer_text (by rw [first]; rfl)

theorem Located.front_ne_nil
    (located : Located listName front opener chunks closer back) :
    front ≠ [] := by
  rintro rfl
  have found := located.found
  rw [List.nil_append, listFrom?] at found
  rcases Option.or_eq_some_iff.1 found with here | ⟨-, later⟩
  · split at here
    · obtain ⟨e, o, rest, shape, -⟩ := opened?_suffix here
      have shorter :=
        (assignmentOf_suffix (join chunks ++ closer :: back)).length_le
      rw [shape] at shorter
      simp only [List.length_cons, List.length_append] at shorter
      omega
    · simp at here
  · have shorter := (listFrom?_suffix later).1.length_le
    simp only [List.length_cons, List.length_append] at shorter
    omega

end Located

theorem Located.replace {listName : Text} {front : List Token} {opener : Token}
    {chunks chunks' : List Chunk} {closer : Token} {back : List Token}
    (located : Located listName front opener chunks closer back)
    (cut : Cut chunks') :
    Located listName front opener chunks' closer back := by
  refine ⟨?_, located.pair, cut,
    listFrom?_replace located.pair located.cut.balanced cut.balanced located.found⟩
  have shape (inner : List Token) : front ++ opener :: (inner ++ closer :: back) =
      (front ++ [opener]) ++ inner ++ (closer :: back) := by
    simp
  have balanced := located.balanced
  rw [shape] at balanced ⊢
  exact balanced.replace located.cut.balanced cut.balanced

theorem Located.listContent_eq {listName : Text} {front : List Token}
    {opener : Token} {chunks : List Chunk} {closer : Token} {back : List Token}
    (located : Located listName front opener chunks closer back) :
    listContent listName (front ++ opener :: (join chunks ++ closer :: back)) =
      contentOf chunks := by
  rw [listContent, located.found]
  simp only [List.tail_cons]
  rw [groupInner_eq located.pair located.cut.balanced, chunksOf_join located.cut]

/-! ## Scanning -/

theorem tokenize_eq_ok_iff {text : Text} {tokens : List Token} :
    tokenize text = .ok tokens ↔ Lexed 0 text tokens none :=
  tokensFrom_eq_ok_iff

/-- What a text with the list in its tokens is read as. -/
theorem scanWith_eq {text listName : Text} {front : List Token} {opener : Token}
    {chunks : List Chunk} {closer : Token} {back : List Token}
    (tokens : tokenize text =
      .ok (front ++ opener :: (join chunks ++ closer :: back)))
    (located : Located listName front opener chunks closer back)
    (read : LiteralReader) :
    scanWith read text listName =
      elementsOf none chunks read >>= fun elements =>
        (importsOf (statements none 0 (front ++ opener ::
          (join chunks ++ closer :: back))) read).map fun imports =>
            ⟨text, ⟨opener.start, closer.stop⟩, imports, elements.records,
              elements.count, elements.trailingComma⟩ := by
  obtain ⟨b, bracketed⟩ := located.balanced.exists_ofTokens
  have represents := Bracketed.represents_of_ofTokens bracketed
  have genuine := (tokenize_eq_ok_iff.1 tokens).genuine
  have found : b.findList listName = .ok front.length := by
    rw [findList_eq represents, located.found]
    simp
  have shape : front ++ opener :: (join chunks ++ closer :: back) =
      front ++ opener :: join chunks ++ closer :: back := by
    simp
  have partner : b.partner? front.length =
      some (front.length + (join chunks).length + 1) :=
    represents.group shape located.pair located.cut.balanced
  have opening : b.token? front.length = some opener := by
    simp [represents.token?_length]
  have closing : b.token? (front.length + (join chunks).length + 1) =
      some closer := by
    rw [Nat.add_assoc, represents.token?_add]
    simp
  have elements : b.elementsFrom none (front.length + 1)
      (front.length + (join chunks).length + 1) read =
        elementsOf none chunks read := by
    have := elementsFrom_join (l := front ++ [opener])
      (r := closer :: back) located.cut (by simpa using represents) none read
    rw [← this, List.length_append, List.length_singleton]
    congr 1
    omega
  have imports : b.imports read = importsOf (statements none 0
      (front ++ opener :: (join chunks ++ closer :: back))) read :=
    importsFrom_eq (l := []) represents genuine read
  unfold scanWith
  rw [tokens, ok_bind, bracketed, ok_bind, found, ok_bind]
  simp only [partner, Option.getD_some, elements, imports, opening, closing,
    Option.map_some]
  cases elementsOf none chunks read with
  | error fault => rfl
  | ok elements =>
      cases importsOf (statements none 0 (front ++ opener ::
        (join chunks ++ closer :: back))) read <;>
        rfl

theorem scan_eq {text listName : Text} {front : List Token} {opener : Token}
    {chunks : List Chunk} {closer : Token} {back : List Token}
    (tokens : tokenize text =
      .ok (front ++ opener :: (join chunks ++ closer :: back)))
    (located : Located listName front opener chunks closer back) :
    scan text listName =
      elementsOf none chunks >>= fun elements =>
        (importsOf (statements none 0 (front ++ opener ::
          (join chunks ++ closer :: back)))).map fun imports =>
            ⟨text, ⟨opener.start, closer.stop⟩, imports, elements.records,
              elements.count, elements.trailingComma⟩ :=
  scanWith_eq tokens located Token.value

/-- Every text that is read holds the list in its tokens. -/
theorem exists_located {text listName : Text} {doc : Document}
    (h : scan text listName = .ok doc) :
    ∃ front opener chunks closer back,
      tokenize text = .ok (front ++ opener :: (join chunks ++ closer :: back)) ∧
        Located listName front opener chunks closer back := by
  obtain ⟨tokens, tokenized, rest⟩ := bind_eq_ok_iff.1 h
  obtain ⟨b, bracketed, rest⟩ := bind_eq_ok_iff.1 rest
  obtain ⟨i, found, -⟩ := bind_eq_ok_iff.1 rest
  have represents := Bracketed.represents_of_ofTokens bracketed
  rw [findList_eq represents] at found
  cases search : listFrom? listName none tokens with
  | none => simp [search] at found
  | some suffix =>
      obtain ⟨front, opener, chunks, closer, back, rfl, located⟩ :=
        exists_located_of_listFrom?
        represents.balanced (tokenize_eq_ok_iff.1 tokenized).genuine search
      exact ⟨front, opener, chunks, closer, back, tokenized, located⟩

theorem text_of_scan {text listName : Text} {doc : Document}
    (h : scan text listName = .ok doc) :
    doc.text = text := by
  obtain ⟨front, opener, chunks, closer, back, tokens, located⟩ := exists_located h
  rw [scan_eq tokens located] at h
  obtain ⟨elements, -, rest⟩ := bind_eq_ok_iff.1 h
  obtain ⟨imports, -, rfl⟩ := map_eq_ok_iff.1 rest
  rfl

/-- A document whose list has this content. -/
structure Document.Says (doc : Document) (content : Content) : Prop where
  records : doc.records.map Record.content = recordsOf content.elements
  count : doc.elementCount = content.elements.length
  trailing : doc.trailingComma = content.trailingComma

open Bracketed in
private theorem contentOf_eq_ok_iff {chunks : List Chunk} {content : Content} :
    contentOf chunks = .ok content ↔
      ∃ elements, elementsOf none chunks = .ok elements ∧
        elementContents chunks = .ok content.elements ∧
        elements.records.map Record.content = recordsOf content.elements ∧
        elements.count = content.elements.length ∧
        elements.trailingComma = content.trailingComma := by
  constructor
  · intro h
    obtain ⟨es, found, rfl⟩ := map_eq_ok_iff.1 h
    obtain ⟨elements, read, same⟩ :=
      exists_of_map_eq_map (elementsOf_content none chunks).symm found
    obtain ⟨count, records⟩ := Prod.mk.inj same
    exact ⟨elements, read, found, count.symm, records.symm,
      elementsOf_trailingComma read⟩
  · rintro ⟨elements, read, found, -, -, trailing⟩
    rw [contentOf, found, map_ok, ← elementsOf_trailingComma read, trailing]

theorem scan_says {text listName : Text} {tokens : List Token} {doc : Document}
    (tokenized : tokenize text = .ok tokens) (h : scan text listName = .ok doc) :
    ∃ content, listContent listName tokens = .ok content ∧ doc.Says content ∧
      importsOf (statements none 0 tokens) = .ok doc.imports ∧ Balanced tokens := by
  obtain ⟨front, opener, chunks, closer, back, tokenized', located⟩ :=
    exists_located h
  obtain rfl : tokens = front ++ opener :: (join chunks ++ closer :: back) := by
    simpa [tokenized] using tokenized'
  rw [scan_eq tokenized located] at h
  obtain ⟨elements, read, rest⟩ := bind_eq_ok_iff.1 h
  obtain ⟨imports, found, rfl⟩ := map_eq_ok_iff.1 rest
  obtain ⟨es, contents, -⟩ := exists_contents read
  have content : contentOf chunks =
      .ok ⟨es, (chunks.getLast?.bind Chunk.comma?).isSome⟩ := by
    rw [contentOf, contents, map_ok]
  obtain ⟨elements', read', -, records, count, trailing⟩ :=
    contentOf_eq_ok_iff.1 content
  obtain rfl : elements = elements' := by simpa [read] using read'
  exact ⟨_, located.listContent_eq.trans content, ⟨records, count, trailing⟩, found,
    located.balanced⟩

theorem exists_scan {text listName : Text} {tokens : List Token}
    {content : Content} {imports : List Import}
    (tokenized : tokenize text = .ok tokens) (balanced : Balanced tokens)
    (list : listContent listName tokens = .ok content)
    (found : importsOf (statements none 0 tokens) = .ok imports) :
    ∃ doc, scan text listName = .ok doc ∧ doc.Says content ∧ doc.imports = imports ∧
      doc.text = text := by
  cases search : listFrom? listName none tokens with
  | none => simp [listContent, search] at list
  | some suffix =>
      obtain ⟨front, opener, chunks, closer, back, rfl, located⟩ :=
        exists_located_of_listFrom?
        balanced (tokenize_eq_ok_iff.1 tokenized).genuine search
      rw [located.listContent_eq] at list
      obtain ⟨elements, read, -, records, count, trailing⟩ :=
        contentOf_eq_ok_iff.1 list
      rw [scan_eq tokenized located, read, found]
      exact ⟨_, rfl, ⟨records, count, trailing⟩, rfl, rfl⟩

/-! ## Fields by name -/

/-- The value that a name has among some fields. -/
def fieldValue? (name : Text) (fields : List (Text × FieldValue)) :
    Option FieldValue :=
  (fields.find? (·.1 == name)).map Prod.snd

theorem Record.field?_content (record : Record) (name : Text) :
    (record.field? name).map Field.value = fieldValue? name record.content := by
  rw [fieldValue?, Record.content, List.find?_map, Option.map_map]
  rfl

theorem Record.value?_eq (record : Record) (name : Text) :
    record.value? name =
      (fieldValue? name record.content).bind FieldValue.text? := by
  rw [← field?_content, value?]
  cases record.field? name <;> rfl

/-- The id among some fields. -/
def idAmong (fields : List (Text × FieldValue)) : Option Text :=
  match fieldValue? "id".toList fields with
  | some (.string value _) => some value
  | _ => none

theorem Record.id?_eq (record : Record) : record.id? = idAmong record.content := by
  rw [idAmong, ← field?_content, id?]
  cases record.field? "id".toList with
  | none => rfl
  | some field =>
      obtain ⟨name, value, span⟩ := field
      cases value <;> rfl

private theorem find?_distinct (name : Text) {seen : List Text}
    (fresh : seen.contains name = false) (pairs : List (Text × FieldValue)) :
    (distinct seen pairs).find? (·.1 == name) = pairs.find? (·.1 == name) := by
  induction pairs generalizing seen with
  | nil => rfl
  | cons pair pairs ih =>
      rw [distinct, List.find?_cons]
      by_cases here : pair.1 = name
      · subst here
        rw [fresh]
        simp
      · have other : (pair.1 == name) = false := by simpa using here
        split
        · rw [ih fresh, other]
        · rw [List.find?_cons, other, ih]
          simpa [Ne.symm here] using fresh

theorem fieldValue?_visible (name : Text) (entries : List Entry) :
    fieldValue? name (visible entries) =
      (entries.find? (·.name == name)).map Entry.value := by
  rw [fieldValue?, visible, find?_distinct name rfl, List.find?_map, Option.map_map]
  rfl

theorem Document.Says.exists_record {doc : Document}
    {es es' : List (Option (List Entry))} {entries : List Entry}
    {trailing : Bool} (view : doc.Says ⟨es ++ some entries :: es', trailing⟩) :
    ∃ before record after, doc.records = before ++ record :: after ∧
      before.map Record.content = recordsOf es ∧ record.content = visible entries ∧
      after.map Record.content = recordsOf es' := by
  have records := view.records
  rw [recordsOf, List.filterMap_append, List.filterMap_cons, Option.map_some]
    at records
  obtain ⟨before, rest, shape, front, behind⟩ := List.map_eq_append_iff.1 records
  obtain ⟨record, after, rfl, here, back⟩ := List.map_eq_cons_iff.1 behind
  exact ⟨before, record, after, shape, front, here, back⟩

end Showcase.Registry

import Showcase.Proofs.Registry.Declaration
import Showcase.Proofs.Registry.Records

/-!
# Texts with corresponding tokens

Two texts may have the same tokens but for their places and for what stands in
literals.  Then what is read of one text corresponds to what is read of the
other (`scan_carried`).
-/

namespace Showcase.Registry

/-- A change `f` of some tokens: it takes the spans over them along by `move`,
and a literal that is read as one text before the change is read as one that it
`reads` behind it. -/
structure Carries (f : Token → Token) (move : Span → Span)
    (reads : Token → Text → Text → Prop) (tokens : List Token) : Prop where
  keeps : Keeps f
  span : ∀ t ∈ tokens, ∀ u ∈ tokens, (⟨(f t).start, (f u).stop⟩ : Span) =
    move ⟨t.start, u.stop⟩
  decodes : ∀ t ∈ tokens, t.kind = .string → ∀ value, t.value = .ok value →
    ∃ value', (f t).value = .ok value' ∧ reads t value value'

section Carried

variable (move : Span → Span) (reads : Token → Text → Text → Prop)
  (tokens : List Token)

/-- A text that is the same, or is read from a literal. -/
def CarriedText (text text' : Text) : Prop :=
  text' = text ∨ ∃ t ∈ tokens, t.kind = .string ∧ reads t text text'

/-- The value of a field with this span. -/
def FieldValue.Carried (span : Span) : FieldValue → FieldValue → Prop
  | .string value quote, .string value' quote' => quote' = quote ∧
      ∃ t ∈ tokens, t.kind = .string ∧ t.first = quote ∧ t.span = span ∧
      reads t value value'
  | .name value, .name value' => value' = value
  | .expr, .expr => True
  | _, _ => False

structure Field.Carried (field field' : Field) : Prop where
  name : CarriedText reads tokens field.name field'.name
  value : field.value.Carried reads tokens field.span field'.value
  span : field'.span = move field.span

/-- Of the fields that are written the first of each name count.  The written
ones correspond. -/
structure Record.Carried (record record' : Record) : Prop where
  span : record'.span = move record.span
  comma : record'.comma? = record.comma?.map move
  previousComma : record'.previousComma? = record.previousComma?.map move
  fields : ∃ written written', record.fields = firsts [] written ∧
    record'.fields = firsts [] written' ∧
      List.Forall₂ (Field.Carried move reads tokens) written written'

structure Import.Carried (i i' : Import) : Prop where
  span : i'.span = move i.span
  source : CarriedText reads tokens i.source i'.source
  defaultName : i'.defaultName? = i.defaultName?
  names : i'.names = i.names

open Bracketed in
structure Elements.Carried (elements elements' : Elements) : Prop where
  records : List.Forall₂ (Record.Carried move reads tokens) elements.records
    elements'.records
  count : elements'.count = elements.count
  trailing : elements'.trailingComma = elements.trailingComma

structure Document.Carried (doc doc' : Document) : Prop where
  listSpan : doc'.listSpan = move doc.listSpan
  imports : List.Forall₂ (Import.Carried move reads tokens) doc.imports doc'.imports
  records : List.Forall₂ (Record.Carried move reads tokens) doc.records doc'.records
  count : doc'.elementCount = doc.elementCount
  trailing : doc'.trailingComma = doc.trailingComma

end Carried

variable {f : Token → Token} {move : Span → Span}
  {reads : Token → Text → Text → Prop} {tokens : List Token}

namespace Carries

theorem extent {ts : List Token} (h : Carries f move reads tokens)
    (within : ts ⊆ tokens) (some : ts ≠ []) :
    extent (ts.map f) = move (extent ts) := by
  obtain ⟨first, head⟩ :=
    Option.ne_none_iff_exists'.1 (mt List.head?_eq_none_iff.1 some)
  obtain ⟨last, final⟩ :=
    Option.ne_none_iff_exists'.1 (mt List.getLast?_eq_none_iff.1 some)
  have same := h.span first (within (List.mem_of_mem_head? head)) last
    (within (List.mem_of_getLast? final))
  rw [Registry.extent, Registry.extent, List.head?_map, List.getLast?_map, head,
    final]
  exact same

/-! ## Fields -/

theorem keyName {key : Token} {name : Text} (h : Carries f move reads tokens)
    (mem : key ∈ tokens) (named : Bracketed.keyName key = .ok name) :
    ∃ name', Bracketed.keyName (f key) = .ok name' ∧
      CarriedText reads tokens name name' := by
  rw [Bracketed.keyName] at named
  rw [Bracketed.keyName, h.keeps.kind]
  by_cases string : key.kind = .string
  · rw [if_pos string] at named ⊢
    obtain ⟨name', decoded, same⟩ := h.decodes key mem string name named
    exact ⟨name', decoded, .inr ⟨key, mem, string, same⟩⟩
  · rw [if_neg string] at named ⊢
    cases named
    exact ⟨key.text, by rw [h.keeps.text string], .inl rfl⟩

theorem valueOf {value : List Token} {name name' : Text} {field? : Option Field}
    (h : Carries f move reads tokens) (within : value ⊆ tokens)
    (named : CarriedText reads tokens name name')
    (read : valueOf name value = .ok field?) :
    ∃ field?', Registry.valueOf name' (value.map f) = .ok field?' ∧
      Option.Rel (Field.Carried move reads tokens) field? field?' := by
  match value with
  | [] =>
      cases read
      exact ⟨none, rfl, .none⟩
  | [t] =>
      have mem : t ∈ tokens := within (by simp)
      have span : (f t).span = move t.span := h.span t mem t mem
      rw [Registry.valueOf] at read
      rw [List.map_singleton, Registry.valueOf, h.keeps.kind, span]
      by_cases string : t.kind = .string
      · rw [if_pos string] at read ⊢
        obtain ⟨value, decoded, made⟩ := bind_eq_ok_iff.1 read
        cases made
        obtain ⟨value', decoded', same⟩ := h.decodes t mem string value decoded
        rw [decoded', ok_bind]
        exact ⟨_, rfl,
          .some ⟨named, ⟨h.keeps.first t, t, mem, string, rfl, rfl, same⟩, rfl⟩⟩
      · rw [if_neg string] at read ⊢
        by_cases isName : t.kind = .name
        · rw [if_pos isName] at read ⊢
          cases read
          exact ⟨_, rfl, .some ⟨named, h.keeps.text string, rfl⟩⟩
        · rw [if_neg isName] at read ⊢
          cases read
          exact ⟨_, rfl, .some ⟨named, trivial, rfl⟩⟩
  | t :: u :: ts =>
      have span := h.extent within (by simp)
      cases read
      exact ⟨_, rfl, .some ⟨named, trivial, span⟩⟩

theorem fieldOf {piece : List Token} {field? : Option Field}
    (h : Carries f move reads tokens) (within : piece ⊆ tokens)
    (read : fieldOf piece = .ok field?) :
    ∃ field?', Registry.fieldOf (piece.map f) = .ok field?' ∧
      Option.Rel (Field.Carried move reads tokens) field? field?' := by
  cases piece with
  | nil =>
      cases read
      exact ⟨none, rfl, .none⟩
  | cons key rest =>
      have mem : key ∈ tokens := within (by simp)
      rw [Registry.fieldOf] at read
      rw [List.map_cons, Registry.fieldOf, h.keeps.kind]
      by_cases punct : key.kind = .punct
      · rw [if_pos punct] at read ⊢
        cases read
        exact ⟨none, rfl, .none⟩
      · rw [if_neg punct] at read ⊢
        obtain ⟨name, named, result⟩ := bind_eq_ok_iff.1 read
        obtain ⟨name', named', same⟩ := h.keyName mem named
        rw [named', ok_bind]
        cases rest with
        | nil =>
            have span : (f key).span = move key.span := h.span key mem key mem
            by_cases isName : key.kind = .name
            · simp only [isName, if_true] at result
              cases result
              have text : (f key).text = key.text := h.keeps.text (by simp [isName])
              simp only [List.map_nil, isName, if_true]
              exact ⟨_, rfl, .some ⟨same, text, span⟩⟩
            · simp only [isName, if_false] at result
              cases result
              simp only [List.map_nil, isName, if_false]
              exact ⟨none, rfl, .none⟩
        | cons colon value =>
            simp only [List.map_cons, h.keeps.text_eq_iff colon [':'] (by decide)]
            dsimp only at result
            by_cases isColon : colon.text = [':']
            · rw [if_pos isColon] at result ⊢
              exact h.valueOf (fun t inside => within (by simp [inside])) same
                result
            · rw [if_neg isColon] at result ⊢
              cases result
              exact ⟨none, rfl, .none⟩

theorem fieldsOf {chunks : List Chunk} {fields : List Field}
    (h : Carries f move reads tokens) (within : join chunks ⊆ tokens)
    (read : fieldsOf chunks = .ok fields) :
    ∃ fields', Registry.fieldsOf (chunks.map (Chunk.map f)) = .ok fields' ∧
      List.Forall₂ (Field.Carried move reads tokens) fields fields' := by
  induction chunks generalizing fields with
  | nil =>
      cases read
      exact ⟨[], rfl, .nil⟩
  | cons chunk chunks ih =>
      rw [Registry.fieldsOf] at read
      obtain ⟨field?, here, rest⟩ := bind_eq_ok_iff.1 read
      obtain ⟨later, behind, rfl⟩ := map_eq_ok_iff.1 rest
      obtain ⟨field?', here', same⟩ :=
        h.fieldOf (fun t inside => within (by simp [Chunk.all, inside])) here
      obtain ⟨later', behind', same'⟩ :=
        ih (fun t inside => within (by simp [inside])) behind
      rw [List.map_cons, Registry.fieldsOf, Chunk.map, here', ok_bind,
        behind', map_ok]
      refine ⟨_, rfl, ?_⟩
      cases same with
      | none => exact same'
      | some same => exact .cons same same'

/-! ## Elements -/

theorem recordOf {piece : List Token} {comma? previousComma? : Option Span}
    {record? : Option Record} (h : Carries f move reads tokens)
    (balanced : Balanced piece) (within : piece ⊆ tokens)
    (read : recordOf piece comma? previousComma? = .ok record?) :
    ∃ record?', Registry.recordOf (piece.map f) (comma?.map move)
      (previousComma?.map move) =
        .ok record?' ∧
          Option.Rel (Record.Carried move reads tokens) record? record?' := by
  rw [Registry.recordOf] at read
  rw [Registry.recordOf, groupBody?_map h.keeps]
  cases body : groupBody? piece with
  | none =>
      rw [body] at read
      cases read
      exact ⟨none, rfl, .none⟩
  | some inner =>
      rw [body] at read
      obtain ⟨written, found, rfl⟩ := map_eq_ok_iff.1 read
      obtain ⟨o, c, rfl, -, -, inside⟩ := groupBody?_eq_some balanced body
      obtain ⟨chunks, cut, rfl⟩ := inside.exists_cut
      rw [chunksOf_join cut] at found
      obtain ⟨written', found', same⟩ :=
        h.fieldsOf (fun t mem => within (by simp [mem])) found
      have span := h.extent within (by simp)
      simp only [Option.map_some]
      rw [chunksOf_map h.keeps, chunksOf_join cut, found', map_ok]
      exact ⟨_, rfl, .some ⟨span, rfl, rfl, written, written', rfl, rfl, same⟩⟩

open Bracketed in
theorem elementsOf {chunks : List Chunk} {previousComma? : Option Span}
    {elements : Elements} (h : Carries f move reads tokens) (cut : Cut chunks)
    (within : join chunks ⊆ tokens)
    (read : elementsOf previousComma? chunks = .ok elements) :
    ∃ elements', Registry.elementsOf (previousComma?.map move) (chunks.map
      (Chunk.map f)) =
        .ok elements' ∧ Elements.Carried move reads tokens elements elements' := by
  induction chunks generalizing previousComma? elements with
  | nil =>
      cases read
      exact ⟨_, rfl, .nil, rfl, rfl⟩
  | cons chunk chunks ih =>
      have comma : (chunk.comma?.map f).map Token.span =
          (chunk.comma?.map Token.span).map move := by
        cases found : chunk.comma? with
        | none => rfl
        | some c =>
            have mem : c ∈ tokens := within (by simp [Chunk.all, found])
            exact congrArg some (h.span c mem c mem)
      rw [Registry.elementsOf] at read
      split at read
      next => simp at read
      next some =>
        obtain ⟨record?, here, rest⟩ := bind_eq_ok_iff.1 read
        obtain ⟨later, behind, rfl⟩ := map_eq_ok_iff.1 rest
        obtain ⟨record?', here', same⟩ :=
          h.recordOf cut.balanced_head (fun t mem =>
            within (by simp [Chunk.all, mem])) here
        obtain ⟨later', behind', same'⟩ :=
          ih cut.tail (fun t mem => within (by simp [mem])) behind
        have some' : (chunk.map f).tokens ≠ [] := by simpa [Chunk.map] using some
        rw [List.map_cons, Registry.elementsOf, if_neg some']
        simp only [Chunk.map, comma]
        rw [here', ok_bind, behind', map_ok]
        refine ⟨_, rfl, ?_, ?_, ?_⟩
        · cases same with
          | none => exact same'.records
          | some same => exact .cons same same'.records
        · exact congrArg (· + 1) same'.count
        · simp [same'.trailing]

/-! ## Import statements -/

theorem importOf {s : Statement} {i : Import} (h : Carries f move reads tokens)
    (within : s.all ⊆ tokens) (read : importOf s = .ok i) :
    ∃ i', Registry.importOf (s.map f) = .ok i' ∧
      Import.Carried move reads tokens i i' := by
  have tail : (s.tokens.map f).tail = s.tokens.tail.map f := List.map_tail.symm
  rw [Registry.importOf] at read
  rw [Registry.importOf]
  simp only [Statement.map, List.getLast?_map, List.head?_map, tail,
    clauseOf_map h.keeps, defaultOf?_map h.keeps, namesOf_map h.keeps]
  cases last : s.tokens.getLast? with
  | none => simp [last] at read
  | some source =>
      rw [last] at read
      cases first : s.tokens.head? with
      | none => simp [List.head?_eq_none_iff.1 first] at last
      | some t =>
          have firstMem : t ∈ tokens :=
            within (by simp [Statement.all, List.mem_of_mem_head? first])
          have sourceMem : source ∈ tokens :=
            within (by simp [Statement.all, List.mem_of_getLast? last])
          dsimp only at read
          split at read
          next string =>
            obtain ⟨path, decoded, rfl⟩ := map_eq_ok_iff.1 read
            obtain ⟨path', decoded', same⟩ :=
              h.decodes source sourceMem string path decoded
            -- the last token of a statement is its semicolon, or its source
            have span :
                (⟨(f t).start, ((s.semicolon?.map f).getD (f source)).stop⟩ :
                  Span) =
                move ⟨t.start, (s.semicolon?.getD source).stop⟩ := by
              cases semicolon : s.semicolon? with
              | none => exact h.span t firstMem source sourceMem
              | some c =>
                  exact h.span t firstMem c
                    (within (by simp [Statement.all, semicolon]))
            simp only [Option.map_some, Option.getD_some, h.keeps.kind, string,
              if_true, decoded', map_ok, first]
            exact ⟨_, rfl, span, .inr ⟨source, sourceMem, string, same⟩, rfl, rfl⟩
          next => simp at read

theorem importsOf {ss : List Statement} {imports : List Import}
    (h : Carries f move reads tokens) (within : ∀ s ∈ ss, s.all ⊆ tokens)
    (read : importsOf ss = .ok imports) :
    ∃ imports', Registry.importsOf (ss.map (Statement.map f)) = .ok imports' ∧
      List.Forall₂ (Import.Carried move reads tokens) imports imports' := by
  induction ss generalizing imports with
  | nil =>
      cases read
      exact ⟨[], rfl, .nil⟩
  | cons s ss ih =>
      rw [Registry.importsOf] at read
      obtain ⟨i, here, rest⟩ := bind_eq_ok_iff.1 read
      obtain ⟨later, behind, rfl⟩ := map_eq_ok_iff.1 rest
      obtain ⟨i', here', same⟩ := h.importOf (within s (by simp)) here
      obtain ⟨later', behind', same'⟩ :=
        ih (fun s' mem => within s' (by simp [mem])) behind
      rw [List.map_cons, Registry.importsOf, here', ok_bind, behind', map_ok]
      exact ⟨_, rfl, .cons same same'⟩

end Carries

/-! ## Documents -/

theorem Located.map {f : Token → Token} (keeps : Keeps f) {listName : Text}
    {front : List Token} {opener : Token} {chunks : List Chunk} {closer : Token}
    {back : List Token}
    (located : Located listName front opener chunks closer back) :
    Located listName (front.map f) (f opener) (chunks.map (Chunk.map f))
      (f closer) (back.map f) := by
  have list :
      f opener :: (join (chunks.map (Chunk.map f)) ++ f closer :: back.map f) =
        (opener :: (join chunks ++ closer :: back)).map f := by
    simp [join_map]
  refine ⟨?_, ?_, located.cut.map keeps, ?_⟩
  · rw [list, ← List.map_append]
    exact (balanced_map keeps).2 located.balanced
  · rw [Token.Pairs, keeps.closer?, keeps.first, keeps.kind]
    exact located.pair
  · rw [list, ← List.map_append, ← Option.map_none, listFrom?_map keeps,
      located.found]
    rfl

/-- What is read of a text is carried over to a text with the changed tokens. -/
theorem scan_carried {text text' listName : Text} {doc : Document}
    (h : Carries f move reads tokens) (tokenized : tokenize text = .ok tokens)
    (scanned : scan text listName = .ok doc)
    (tokenized' : tokenize text' = .ok (tokens.map f)) :
    ∃ doc', scan text' listName = .ok doc' ∧ doc'.text = text' ∧
      Document.Carried move reads tokens doc doc' := by
  obtain ⟨front, opener, chunks, closer, back, tokenized'', located⟩ :=
    exists_located scanned
  obtain rfl : tokens = front ++ opener :: (join chunks ++ closer :: back) := by
    simpa [tokenized] using tokenized''
  rw [scan_eq tokenized located] at scanned
  obtain ⟨elements, read, rest⟩ := bind_eq_ok_iff.1 scanned
  obtain ⟨imports, found, rfl⟩ := map_eq_ok_iff.1 rest
  obtain ⟨elements', read', same⟩ :=
    h.elementsOf located.cut (fun t mem => by simp [mem]) read
  obtain ⟨imports', found', same'⟩ := h.importsOf (fun s mem t inside =>
    (statements_sublist none 0 _).subset (List.mem_flatMap.2 ⟨s, mem, inside⟩))
      found
  rw [← statements_map h.keeps, Option.map_none] at found'
  have list : (front ++ opener :: (join chunks ++ closer :: back)).map f =
      front.map f ++ f opener ::
        (join (chunks.map (Chunk.map f)) ++ f closer :: back.map f) := by
    simp [join_map]
  have span := h.span opener (by simp) closer (by simp)
  rw [Option.map_none] at read'
  rw [list] at tokenized' found'
  rw [scan_eq tokenized' (located.map h.keeps), read', ok_bind, found', map_ok]
  exact ⟨_, rfl, rfl, span, same', same.records, same.count, same.trailing⟩

/-! ## Where literals are read as before -/

def Field.moved (move : Span → Span) (field : Field) : Field :=
  { field with span := move field.span }

def Record.moved (move : Span → Span) (record : Record) : Record where
  span := move record.span
  fields := record.fields.map (Field.moved move)
  comma? := record.comma?.map move
  previousComma? := record.previousComma?.map move

def Import.moved (move : Span → Span) (i : Import) : Import :=
  { i with span := move i.span }

/-- A document of another text that holds the same at other places. -/
def Document.moved (move : Span → Span) (text : Text) (doc : Document) :
    Document where
  text := text
  listSpan := move doc.listSpan
  imports := doc.imports.map (Import.moved move)
  records := doc.records.map (Record.moved move)
  elementCount := doc.elementCount
  trailingComma := doc.trailingComma

section Moved

variable (move : Span → Span)

theorem Record.field?_moved (record : Record) (name : Text) :
    (record.moved move).field? name =
      (record.field? name).map (Field.moved move) := by
  rw [Record.field?, Record.field?, Record.moved, List.find?_map]
  rfl

@[simp] theorem Record.value?_moved (record : Record) (name : Text) :
    (record.moved move).value? name = record.value? name := by
  rw [Record.value?, Record.value?, field?_moved]
  cases record.field? name <;> rfl

@[simp] theorem Record.id?_moved (record : Record) :
    (record.moved move).id? = record.id? := by
  rw [Record.id?, Record.id?, field?_moved]
  cases record.field? "id".toList with
  | none => rfl
  | some field =>
      obtain ⟨name, value, span⟩ := field
      cases value <;> rfl

theorem Document.find_map {doc doc' : Document} {id : Text}
    {g : Record → Record}
    (same : doc'.records.filter (·.id? == some id) =
      (doc.records.filter (·.id? == some id)).map g) :
    doc'.find id = (doc.find id).map g := by
  rw [Document.find, Document.find, same]
  generalize doc.records.filter (·.id? == some id) = found
  rcases found with _ | ⟨first, _ | ⟨second, more⟩⟩ <;> rfl

theorem Document.find_moved (text : Text) (doc : Document) (id : Text) :
    (doc.moved move text).find id = (doc.find id).map (Record.moved move) := by
  refine Document.find_map ?_
  rw [Document.moved, List.filter_map]
  simp only [Function.comp_def, Record.id?_moved]

theorem Document.companionImport?_moved (text : Text) (doc : Document)
    (record : Record) :
    (doc.moved move text).companionImport? (record.moved move) =
      (doc.companionImport? record).map (Import.moved move) := by
  rw [Document.companionImport?, Document.companionImport?, Record.value?_moved]
  cases record.value? "component".toList with
  | none => rfl
  | some binding =>
      dsimp only
      split
      · rfl
      · rw [Document.importFor?, Document.importFor?, Document.moved,
          List.find?_map]
        rfl

end Moved

private theorem firsts_moved (move : Span → Span) (seen : List Text)
    (fields : List Field) :
    firsts seen (fields.map (Field.moved move)) =
      (firsts seen fields).map (Field.moved move) := by
  induction fields generalizing seen with
  | nil => rfl
  | cons field fields ih =>
      have name : (field.moved move).name = field.name := rfl
      rw [List.map_cons, firsts, firsts, name, ih, ih,
        apply_ite (List.map (Field.moved move))]
      rfl

theorem eq_map_of_forall₂ {α : Type} {R : α → α → Prop} {g : α → α} {xs ys : List α}
    (h : List.Forall₂ R xs ys) (eq : ∀ x y, R x y → y = g x) : ys = xs.map g := by
  induction h with
  | nil => rfl
  | cons here _ ih => rw [eq _ _ here, ih, List.map_cons]

/-- All literals among the tokens are read as before. -/
def Steady (reads : Token → Text → Text → Prop) (tokens : List Token) : Prop :=
  ∀ t ∈ tokens, t.kind = .string → ∀ value value', reads t value value' →
    value' = value

section Steady

variable (steady : Steady reads tokens)

include steady

theorem CarriedText.eq {text text' : Text}
    (h : CarriedText reads tokens text text') :
    text' = text := by
  rcases h with same | ⟨t, mem, string, read⟩
  · exact same
  · exact steady t mem string _ _ read

theorem FieldValue.Carried.eq {span : Span} {value value' : FieldValue}
    (h : value.Carried reads tokens span value') : value' = value := by
  cases value <;> cases value' <;> try exact h.elim
  case string =>
    obtain ⟨rfl, t, mem, string, -, -, read⟩ := h
    rw [steady t mem string _ _ read]
  case name => exact congrArg FieldValue.name h
  case expr => rfl

theorem Field.Carried.eq {field field' : Field}
    (h : field.Carried move reads tokens field') :
    field' = field.moved move := by
  obtain ⟨name, value, span⟩ := field
  obtain ⟨name', value', span'⟩ := field'
  rw [Field.moved, Field.mk.injEq]
  exact ⟨h.name.eq steady, h.value.eq steady, h.span⟩

theorem Record.Carried.eq {record record' : Record}
    (h : record.Carried move reads tokens record') :
    record' = record.moved move := by
  obtain ⟨span, fields, comma?, previousComma?⟩ := record
  obtain ⟨span', fields', comma?', previousComma?'⟩ := record'
  obtain ⟨written, written', shape, shape', same⟩ := h.fields
  obtain rfl := eq_map_of_forall₂ same fun _ _ carried => carried.eq steady
  rw [Record.moved, Record.mk.injEq]
  refine ⟨h.span, ?_, h.comma, h.previousComma⟩
  rw [firsts_moved, ← shape] at shape'
  exact shape'

theorem Import.Carried.eq {i i' : Import} (h : i.Carried move reads tokens i') :
    i' = i.moved move := by
  obtain ⟨span, source, default?, names⟩ := i
  obtain ⟨span', source', default?', names'⟩ := i'
  rw [Import.moved, Import.mk.injEq]
  exact ⟨h.span, h.source.eq steady, h.defaultName, h.names⟩

theorem Document.Carried.eq {doc doc' : Document}
    (h : doc.Carried move reads tokens doc') :
    doc' = doc.moved move doc'.text := by
  obtain ⟨text, listSpan, imports, records, count, trailing⟩ := doc
  obtain ⟨text', listSpan', imports', records', count', trailing'⟩ := doc'
  rw [Document.moved, Document.mk.injEq]
  exact ⟨rfl, h.listSpan, eq_map_of_forall₂ h.imports fun _ _ carried =>
    carried.eq steady,
    eq_map_of_forall₂ h.records fun _ _ carried => carried.eq steady,
    h.count, h.trailing⟩

end Steady

end Showcase.Registry

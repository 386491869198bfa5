import Showcase.Proofs.Registry.ImportForm

/-!
# The form of a registry

A registry has import statements, the name of its list with an annotation, and
the elements of the list: records, and other expressions.  However its tokens
are spelled, it is read as what they say (`scan_of_spelled`).
-/

namespace Showcase.Registry

/-! ## Records and other elements -/

inductive KeyForm where
  | word (name : Name)
  | string (literal : Literal)

namespace KeyForm

def token : KeyForm → Token
  | .word name => name.token
  | .string literal => literal.token

def text : KeyForm → Text
  | .word name => name.text
  | .string literal => literal.value

end KeyForm

/-- A field's value: a literal, a name, or at least two tokens without a comma
outside their brackets. -/
inductive ValueForm where
  | string (literal : Literal)
  | word (name : Name)
  | expr (ts : List Token) (unbroken : Unbroken ts) (more : 2 ≤ ts.length)

namespace ValueForm

def tokens : ValueForm → List Token
  | .string literal => [literal.token]
  | .word name => [name.token]
  | .expr ts _ _ => ts

def value : ValueForm → FieldValue
  | .string literal => .string literal.value literal.quote
  | .word name => .name name.text
  | .expr _ _ _ => .expr

end ValueForm

inductive FieldForm where
  | pair (key : KeyForm) (value : ValueForm)
  | shorthand (name : Name)

namespace FieldForm

def tokens : FieldForm → List Token
  | .pair key value => key.token :: mark ':' :: value.tokens
  | .shorthand name => [name.token]

def entry : FieldForm → Entry
  | .pair key value => ⟨key.text, value.value, false⟩
  | .shorthand name => ⟨name.text, .name name.text, true⟩

end FieldForm

/-- An element of the list: a record, or other tokens without a comma outside
their brackets. -/
inductive ElementForm where
  | record (fields : List FieldForm) (trailing : Bool)
  | other (ts : List Token) (unbroken : Unbroken ts) (some : ts ≠ [])
      (noBlock : ¬IsBlock ts)

namespace ElementForm

def tokens : ElementForm → List Token
  | .record fields trailing =>
      mark '{' ::
        (join (separated trailing (fields.map FieldForm.tokens)) ++ [mark '}'])
  | .other ts _ _ _ => ts

/-- The entries of a record. -/
def entries? : ElementForm → Option (List Entry)
  | .record fields _ => some (fields.map FieldForm.entry)
  | .other _ _ _ _ => none

end ElementForm

/-! ## Reading elements -/

private theorem KeyForm.keyName_token (key : KeyForm) :
    Bracketed.keyName key.token = .ok key.text := by
  cases key with
  | word name => rfl
  | string literal =>
      rw [Bracketed.keyName, if_pos (by rfl)]
      exact literal.decoded

theorem KeyForm.kind_ne (key : KeyForm) : key.token.kind ≠ .punct := by
  cases key <;> simp [token, Name.token, Literal.token]

theorem ValueForm.unbroken (value : ValueForm) : Unbroken value.tokens := by
  cases value with
  | string literal =>
      have plain := Token.plain_of_kind
        (by simp [Literal.token] : literal.token.kind ≠ .punct)
      exact unbroken_of_plain (by simpa [tokens] using plain)
  | word name =>
      have plain := Token.plain_of_kind
        (by simp [Name.token] : name.token.kind ≠ .punct)
      exact unbroken_of_plain (by simpa [tokens] using plain)
  | expr ts unbroken more => exact unbroken

private theorem ValueForm.valueOf_tokens (value : ValueForm) (name : Text) :
    (valueOf name value.tokens).map (·.map Field.content) =
      .ok (some (name, value.value)) := by
  cases value with
  | string literal =>
      have decoded : literal.token.value = .ok literal.value := literal.decoded
      rw [tokens, valueOf, if_pos (by rfl), decoded]
      rfl
  | word name => rfl
  | expr ts unbroken more =>
      obtain _ | ⟨first, _ | ⟨second, rest⟩⟩ := ts
      · simp at more
      · simp at more
      · rfl

private theorem FieldForm.entryOf_tokens (field : FieldForm) :
    entryOf field.tokens = .ok (some field.entry) := by
  cases field with
  | pair key value =>
      obtain ⟨written?, read, made⟩ :=
        map_eq_ok_iff.1 (value.valueOf_tokens key.text)
      obtain ⟨written, rfl, content⟩ := Option.map_eq_some_iff.1 made
      obtain ⟨name, stored⟩ := Prod.mk.inj content
      have shape : fieldOf (tokens (.pair key value)) = .ok (some written) := by
        rw [tokens, fieldOf, if_neg key.kind_ne, key.keyName_token, ok_bind]
        exact read
      rw [entryOf, shape]
      simp only [map_ok, Option.map_some, tokens, List.tail_cons,
        List.isEmpty_cons, name, stored]
      rfl
  | shorthand name => rfl

theorem FieldForm.unbroken (field : FieldForm) :
    Unbroken field.tokens ∧ field.tokens ≠ [] := by
  cases field with
  | pair key value =>
      obtain ⟨opening, closing, noComma⟩ := Token.plain_of_kind key.kind_ne
      obtain ⟨opening', closing', noComma'⟩ :=
        Token.plain_of_colon (by rfl : (mark ':').text = [':'])
      obtain ⟨balanced, nothing⟩ := value.unbroken
      refine ⟨⟨.plain opening closing (.plain opening' closing' balanced), ?_⟩,
        by simp [tokens]⟩
      rw [tokens, seek, Token.isPunctIn_comma, noComma, opening]
      simp only [Bool.false_eq_true, if_false, Option.isSome_none]
      rw [seek, Token.isPunctIn_comma, noComma', opening']
      simpa using nothing
  | shorthand name =>
      have plain := Token.plain_of_kind
        (by simp [Name.token] : name.token.kind ≠ .punct)
      exact ⟨unbroken_of_plain (by simpa [tokens] using plain), by simp [tokens]⟩

private theorem entriesOf_fields {chunks : List Chunk} (fields : List FieldForm)
    (same : chunks.map Chunk.tokens = fields.map FieldForm.tokens) :
    entriesOf chunks = .ok (fields.map FieldForm.entry) := by
  induction fields generalizing chunks with
  | nil =>
      obtain rfl : chunks = [] := by simpa using same
      rfl
  | cons field fields ih =>
      cases chunks with
      | nil => simp at same
      | cons chunk chunks =>
          obtain ⟨here, later⟩ := List.cons.inj same
          rw [entriesOf, here, field.entryOf_tokens, ok_bind, ih later]
          rfl

private theorem ElementForm.body_balanced (fields : List FieldForm)
    (trailing : Bool) :
    Cut (separated trailing (fields.map FieldForm.tokens)) :=
  cut_separated fun piece mem => by
    obtain ⟨field, -, rfl⟩ := List.mem_map.1 mem
    exact field.unbroken

theorem ElementForm.unbroken (element : ElementForm) :
    Unbroken element.tokens ∧ element.tokens ≠ [] := by
  cases element with
  | record fields trailing =>
      exact ⟨unbroken_group ⟨rfl, rfl⟩ rfl
        (body_balanced fields trailing).balanced, by simp [tokens]⟩
  | other ts unbroken some noBlock => exact ⟨unbroken, some⟩

private theorem ElementForm.elementOf_tokens (element : ElementForm) :
    elementOf element.tokens = .ok element.entries? := by
  cases element with
  | record fields trailing =>
      have cut := body_balanced fields trailing
      rw [elementOf, tokens, groupBody?_of_pair rfl ⟨rfl, rfl⟩ cut.balanced]
      simp only [chunksOf_join cut]
      rw [entriesOf_fields fields (separated_tokens _ _)]
      rfl
  | other ts unbroken some noBlock =>
      have none' : groupBody? ts = none := by
        cases h : groupBody? ts with
        | none => rfl
        | some inner =>
            exact absurd (isBlock_of_groupBody? unbroken.1 (by simp [h])) noBlock
      rw [ElementForm.tokens, elementOf, none']
      rfl

private theorem not_isBlock_of_first {t : Token} {ts : List Token}
    (h : t.text ≠ ['\x7b']) :
    ¬IsBlock (t :: ts) := by
  rintro ⟨o, inner, c, same, brace, -⟩
  rw [← (List.cons.inj same).1] at brace
  exact h brace

private theorem elementContents_elements {chunks : List Chunk}
    (elements : List ElementForm)
    (same : chunks.map Chunk.tokens = elements.map ElementForm.tokens) :
    elementContents chunks = .ok (elements.map ElementForm.entries?) := by
  induction elements generalizing chunks with
  | nil =>
      obtain rfl : chunks = [] := by simpa using same
      rfl
  | cons element elements ih =>
      cases chunks with
      | nil => simp at same
      | cons chunk chunks =>
          obtain ⟨here, later⟩ := List.cons.inj same
          rw [elementContents, here, if_neg element.unbroken.2,
            element.elementOf_tokens, ok_bind, ih later]
          rfl

/-! ## The list behind its annotation -/

/-- What may stand between the name of the list and the `=` before it: outside
brackets no semicolon, and no `=` but in an arrow. -/
inductive Annotation : List Token → Prop where
  | nil : Annotation []
  | plain {t : Token} {ts : List Token} (notOpening : t.closer? = none)
      (notClosing : t.closes = false)
      (notStop : t.isPunctIn ['=', ';'] = false) (later : Annotation ts) :
      Annotation (t :: ts)
  | arrow {e g : Token} {ts : List Token} (equals : e.kind = .punct ∧
      e.text = ['='])
      (greater : g.text = ['>']) (later : Annotation ts) : Annotation (e :: g :: ts)
  | group {o c : Token} {inner ts : List Token} (pair : o.Pairs c) (inside :
      Balanced inner)
      (later : Annotation ts) : Annotation (o :: (inner ++ c :: ts))

theorem Annotation.balanced {ts : List Token} (h : Annotation ts) :
    Balanced ts := by
  induction h with
  | nil => exact .nil
  | plain notOpening notClosing _ _ ih => exact .plain notOpening notClosing ih
  | arrow equals greater _ ih =>
      obtain ⟨opening, closing⟩ := Token.plain_of_text equals.2 rfl rfl
      obtain ⟨opening', closing'⟩ := Token.plain_of_text greater rfl rfl
      exact .plain opening closing (.plain opening' closing' ih)
  | group pair inside _ ih => exact .group pair inside ih

private theorem Annotation.assignmentOf_append {ts : List Token}
    (h : Annotation ts) {o : Token} (notArrow : o.text ≠ ['>'])
    (rest : List Token) :
    assignmentOf (ts ++ mark '=' :: o :: rest) = mark '=' :: o :: rest := by
  induction h with
  | nil =>
      have found : seek ['=', ';'] 0 (mark '=' :: o :: rest) = mark '=' ::
          o :: rest := by
        rw [seek, if_pos (by decide)]
      rw [List.nil_append, assignmentOf_of_no_arrow, found]
      intro e g rest' same arrow
      rw [found] at same
      obtain ⟨-, tail⟩ := List.cons.inj same
      obtain ⟨rfl, -⟩ := List.cons.inj tail
      exact notArrow arrow.2
  | @plain t ts notOpening notClosing notStop _ ih =>
      refine (assignmentOf_congr ?_).trans ih
      rw [List.cons_append, seek, notStop, notOpening]
      rfl
  | @arrow e g ts equals greater _ ih =>
      refine (assignmentOf_of_arrow ?_ ⟨equals.2, greater⟩).trans ih
      have stop : e.isPunctIn ['=', ';'] = true := by
        simp [Token.isPunctIn, equals.1, (List.cons.inj equals.2).1]
      rw [List.cons_append, seek, if_pos stop]
      rfl
  | @group o' c inner ts pair inside _ ih =>
      refine (assignmentOf_congr ?_).trans ih
      have notStop : o'.isPunctIn ['=', ';'] = false :=
        Token.isPunctIn_of_closer? pair.1 (by decide)
      have shape : o' :: (inner ++ c :: ts) ++ mark '=' :: o :: rest =
          o' :: (inner ++ c :: (ts ++ mark '=' :: o :: rest)) := by simp
      rw [shape, seek, notStop, pair.1]
      exact seek_group pair inside _ _

/-- A walk from within some brackets ends at a stop, or goes on behind them all. -/
private theorem seek_of_awaited (stops above : List Char) {below : List Char}
    {ts : List Token} (h : awaited (above ++ below) ts = some [])
    (rest : List Token) :
    (∃ e ∈ ts, ∃ later, e.isPunctIn stops = true ∧
      seek stops above.length (ts ++ rest) = e :: later) ∨
      seek stops above.length (ts ++ rest) = seek stops 0 rest := by
  induction ts generalizing above below with
  | nil =>
      obtain ⟨rfl, -⟩ : above = [] ∧ below = [] := by simpa [awaited] using h
      exact .inr rfl
  | cons t ts ih =>
      obtain ⟨stack, step, behind⟩ := Option.bind_eq_some_iff.1 h
      have go (above' : List Char) {below' : List Char}
          (split : stack = above' ++ below')
          (same : seek stops above.length (t :: (ts ++ rest)) =
            seek stops above'.length (ts ++ rest)) :
          (∃ e ∈ t :: ts, ∃ later, e.isPunctIn stops = true ∧
              seek stops above.length (t :: ts ++ rest) = e :: later) ∨
            seek stops above.length (t :: ts ++ rest) = seek stops 0 rest := by
        rw [split] at behind
        rw [List.cons_append, same]
        rcases ih above' behind with ⟨e, mem, found⟩ | walked
        · exact .inl ⟨e, List.mem_cons_of_mem _ mem, found⟩
        · exact .inr walked
      cases above with
      | nil =>
          by_cases stop : t.isPunctIn stops = true
          · exact .inl ⟨t, by simp, ts ++ rest, stop,
              by rw [List.length_nil, List.cons_append, seek, if_pos stop]⟩
          have walk : seek stops 0 (t :: (ts ++ rest)) =
              seek stops (if t.closer?.isSome then 1 else 0) (ts ++ rest) := by
            rw [seek, if_neg stop]
          rcases Token.await_cases step with ⟨closer, opening, same⟩ |
            ⟨opening, -, -⟩ | ⟨opening, -, -⟩
          · exact go [closer] same (by rw [List.length_nil, walk, opening]; rfl)
          · exact go [] rfl (by rw [List.length_nil, walk, opening]; rfl)
          · exact go [] rfl (by rw [List.length_nil, walk, opening]; rfl)
      | cons closer above =>
          have walk : seek stops (above.length + 1) (t :: (ts ++ rest)) =
              seek stops (if t.closer?.isSome then above.length + 2
                else if t.closes then above.length else
                  above.length + 1) (ts ++ rest) := by
            rw [seek]
          rcases Token.await_cases step with ⟨closer', opening, same⟩ |
            ⟨opening, closing, same⟩ | ⟨opening, closing, same⟩
          · exact go (closer' :: closer :: above) same
              (by rw [List.length_cons, walk, opening]; rfl)
          · exact go (closer :: above) same
              (by rw [List.length_cons, walk, opening, closing]; rfl)
          · exact go above (List.cons.inj same).2.symm
              (by rw [List.length_cons, walk, opening, closing]; rfl)

/-- The search passes over tokens behind which nothing else than the list is
assigned. -/
private theorem listFrom?_through {listName : Text}
    {ahead tail target : List Token} {prev? : Option Token}
    (harmless : ∀ front back, ahead = front ++ back →
      opened? (assignmentOf (back ++ tail)) = none ∨
      opened? (assignmentOf (back ++ tail)) = some target)
    (found : listFrom? listName (ahead.getLast?.or prev?) tail = some target) :
    listFrom? listName prev? (ahead ++ tail) = some target := by
  induction ahead generalizing prev? with
  | nil => exact found
  | cons t ahead ih =>
      have later : listFrom? listName (some t) (ahead ++ tail) = some target := by
        refine ih (fun front back split =>
          harmless (t :: front) back (by rw [split]; rfl)) ?_
        rw [List.getLast?_cons, Option.some_or] at found
        cases last : ahead.getLast? <;> simpa [last] using found
      rw [List.cons_append, listFrom?, later]
      cases declared listName prev? t with
      | false => rfl
      | true =>
          rcases harmless [t] ahead rfl with none' | same
          · simp [none']
          · simp [same]

private theorem opened?_behind {ahead : List Token} (balanced : Balanced ahead)
    (noEquals : ∀ t ∈ ahead, t.isPunct '=' = false) {front back : List Token}
    (split : ahead = front ++ back) (tail : List Token) :
    opened? (assignmentOf (back ++ tail)) = none ∨
      opened? (assignmentOf (back ++ tail)) = opened? (assignmentOf tail) := by
  have closed := balanced.awaited_eq []
  rw [split, awaited_append] at closed
  obtain ⟨stack, -, behind⟩ := Option.bind_eq_some_iff.1 closed
  rcases seek_of_awaited ['=', ';'] [] behind tail with
    ⟨e, mem, later, stop, found⟩ | found
  · refine .inl ?_
    have notEquals := noEquals e (by rw [split]; exact List.mem_append_right _ mem)
    have semicolon : e.text ≠ ['='] := by
      intro equals
      have first := (List.cons.inj equals).1
      simp only [Token.isPunctIn, Bool.and_eq_true] at stop
      simp [Token.isPunct, first, eq_of_beq stop.1] at notEquals
    have whole : assignmentOf (back ++ tail) = e :: later := by
      rw [List.length_nil] at found
      rw [assignmentOf_of_no_arrow, found]
      intro e' g rest same arrow
      rw [found] at same
      rw [← (List.cons.inj same).1] at arrow
      exact semicolon arrow.1
    rw [whole]
    cases later <;> simp [opened?, semicolon]
  · rw [List.length_nil] at found
    exact .inr (by rw [assignmentOf_congr found])

/-! ## No import statement behind the others -/

private theorem Balanced.statements_append {ts : List Token} (h : Balanced ts)
    (noImport : ∀ t ∈ ts, t.text ≠ "import".toList) (prev? : Option Token)
    (rest : List Token) :
    statements prev? 0 (ts ++ rest) = statements (ts.getLast?.or prev?) 0 rest := by
  induction h generalizing prev? with
  | nil => rfl
  | @plain t ts opening closing _ ih =>
      have other : (t.text == "import".toList) = false :=
        beq_eq_false_iff_ne.2 (noImport t (by simp))
      have notStart (next? : Option Token) : starts prev? t next? = false := by
        simp only [starts, other, Bool.and_false, Bool.false_and]
      rw [List.cons_append, statements_other opening (notStart _),
        ih fun t mem => noImport t (List.mem_cons_of_mem _ mem), List.getLast?_cons]
      cases ts.getLast? <;> rfl
  | @group o c inner ts pair inside _ _ ih =>
      have shape : o :: inner ++ c :: ts ++ rest =
        o :: (inner ++ c :: (ts ++ rest)) := by simp
      rw [shape, statements_group pair inside,
        ih fun t mem => noImport t (by simp [mem])]
      have last : (o :: inner ++ c :: ts).getLast? = (c :: ts).getLast? := by
        rw [List.getLast?_append, List.getLast?_cons]
        rfl
      rw [last, List.getLast?_cons]
      cases ts.getLast? <;> rfl

/-! ## The whole registry -/

def exportWord : Token := .name 'e' "xport".toList 0

def constWord : Token := .name 'c' "onst".toList 0

/-- A registry: import statements, the declaration of the list, and other
statements behind it. -/
structure RegistryForm where
  imports : List ImportForm
  listName : Name
  annotation : List Token
  annotates : Annotation annotation
  noImport : ∀ t ∈ annotation, t.text ≠ "import".toList
  elements : List ElementForm
  trailing : Bool
  behind : List Token
  balancedBehind : Balanced behind
  noImportBehind : ∀ t ∈ behind, t.text ≠ "import".toList

namespace RegistryForm

variable (form : RegistryForm)

def chunks : List Chunk :=
  separated form.trailing (form.elements.map ElementForm.tokens)

def list : List Token := mark '[' :: (join form.chunks ++ mark ']' :: form.behind)

def declaration : List Token :=
  form.listName.token :: (form.annotation ++ mark '=' :: form.list)

def ahead : List Token :=
  form.imports.flatMap (·.statement.all) ++ [exportWord, constWord]

def tokens : List Token := form.ahead ++ form.declaration

/-- What the fields of each record say to a reader: of several fields of one
name, the first counts. -/
def records : List (List (Text × FieldValue)) :=
  form.elements.filterMap fun element => element.entries?.map visible

theorem cut : Cut form.chunks :=
  cut_separated fun piece mem => by
    obtain ⟨element, -, rfl⟩ := List.mem_map.1 mem
    exact element.unbroken

private theorem list_balanced :
    Balanced form.list := .group ⟨rfl, rfl⟩ form.cut.balanced form.balancedBehind

private theorem declaration_balanced : Balanced form.declaration := by
  have equals : Balanced [mark '='] := balanced_singleton rfl rfl
  exact .plain rfl rfl
    (form.annotates.balanced.append (equals.append form.list_balanced))

private theorem ahead_balanced : Balanced form.ahead := by
  have statements : Balanced (form.imports.flatMap (·.statement.all)) := by
    induction form.imports with
    | nil => exact .nil
    | cons statement statements ih => exact statement.balanced.append ih
  exact statements.append (balanced_of_kind (by decide))

theorem balanced :
    Balanced form.tokens := form.ahead_balanced.append form.declaration_balanced

/-- No token ahead of the list's name is an assignment. -/
private theorem ahead_noEquals : ∀ t ∈ form.ahead, t.isPunct '=' = false := by
  intro t mem
  simp only [ahead, List.mem_append, List.mem_flatMap, List.mem_cons,
    List.not_mem_nil, or_false] at mem
  rcases mem with ⟨statement, -, inside⟩ | rfl | rfl
  · simp only [Statement.all, ImportForm.statement, List.mem_append, List.mem_cons,
      List.not_mem_nil, or_false] at inside
    rcases inside with (rfl | inClause | rfl) | semicolon
    · rfl
    · rcases statement.isClauseToken inClause with ⟨word, -⟩ | rfl | rfl | rfl | rfl
      · simp [Token.isPunct, word]
      all_goals rfl
    · rfl
    · split at semicolon
      · obtain rfl : t = mark ';' := by simpa using semicolon
        rfl
      · simp at semicolon
  · rfl
  · rfl

private theorem listFrom?_tokens :
    listFrom? form.listName.text none form.tokens = some form.list := by
  have assigned : assignmentOf (form.annotation ++ mark '=' :: form.list) =
      mark '=' :: form.list :=
    form.annotates.assignmentOf_append (by decide) _
  have opens : opened? (assignmentOf form.declaration) = some form.list := by
    have skip : assignmentOf form.declaration =
        assignmentOf (form.annotation ++ mark '=' :: form.list) :=
      assignmentOf_congr (by rw [declaration, seek]; rfl)
    rw [skip, assigned]
    rfl
  refine listFrom?_through (fun front back split => ?_) ?_
  · have := opened?_behind form.ahead_balanced form.ahead_noEquals split
      form.declaration
    rwa [opens] at this
  · have isDeclared : declared form.listName.text (form.ahead.getLast?.or none)
        form.listName.token = true := by
      rw [ahead, List.getLast?_append]
      simp only [declared, Bool.and_eq_true, beq_iff_eq]
      exact ⟨⟨rfl, rfl⟩, rfl⟩
    rw [declaration, listFrom?, isDeclared, if_pos rfl, assigned]
    rfl

private theorem listContent_tokens : listContent form.listName.text form.tokens =
    .ok ⟨form.elements.map ElementForm.entries?,
      form.trailing && !form.elements.isEmpty⟩ := by
  have inner : groupInner 0 form.list.tail = join form.chunks :=
    groupInner_eq (o := mark '[') ⟨rfl, rfl⟩ form.cut.balanced form.behind
  have trailing : (form.chunks.getLast?.bind Chunk.comma?).isSome =
      (form.trailing && !form.elements.isEmpty) := by
    rw [chunks, separated_trailing]
    simp
  rw [listContent, form.listFrom?_tokens]
  dsimp only
  have contents : elementContents form.chunks =
      .ok (form.elements.map ElementForm.entries?) :=
    elementContents_elements form.elements (separated_tokens _ _)
  rw [inner, chunksOf_join form.cut, contentOf, contents, trailing]
  rfl

private theorem statements_tokens
    (notImport : form.listName.text ≠ "import".toList) :
    statements none 0 form.tokens = form.imports.map ImportForm.statement := by
  have behind : statements none 0 ([exportWord, constWord] ++ form.declaration) =
      [] := by
    have words : Balanced ([exportWord, constWord, form.listName.token] ++
        form.annotation ++ [mark '=']) := by
      have equals : Balanced [mark '='] := balanced_singleton rfl rfl
      refine ((balanced_of_kind ?_).append form.annotates.balanced).append equals
      simp [exportWord, constWord, Name.token]
    have noImport : ∀ t ∈ [exportWord, constWord,
        form.listName.token] ++ form.annotation ++ [mark '='],
        t.text ≠ "import".toList := by
      intro t mem
      simp only [List.mem_append, List.mem_cons, List.not_mem_nil, or_false] at mem
      rcases mem with ((rfl | rfl | rfl) | inAnnotation) | rfl
      · decide
      · decide
      · exact notImport
      · exact form.noImport t inAnnotation
      · decide
    have shape : [exportWord, constWord] ++ form.declaration =
        [exportWord, constWord, form.listName.token] ++ form.annotation ++
          [mark '='] ++ form.list := by
      simp [declaration]
    rw [shape, words.statements_append noImport, list,
      statements_group ⟨rfl, rfl⟩ form.cut.balanced,
      ← List.append_nil form.behind,
      form.balancedBehind.statements_append form.noImportBehind, statements_nil]
  rw [tokens, ahead, List.append_assoc,
    statements_imports form.imports (by rintro t ⟨⟩; decide) rfl, behind,
    List.append_nil]

private theorem importsOf_imports (forms : List ImportForm) :
    (importsOf (forms.map ImportForm.statement)).map (·.map Import.content) =
      .ok (forms.map ImportForm.content) := by
  induction forms with
  | nil => rfl
  | cons form forms ih =>
      rw [List.map_cons, importsOf_cons_content, form.importOf_statement, ok_bind,
        ih]
      rfl

end RegistryForm

/-- A registry is read as what it says, however its tokens are spelled.  Its
list must not be named `import`, as this word always starts a statement. -/
theorem scan_of_spelled (form : RegistryForm)
    (notImport : form.listName.text ≠ "import".toList) {text : Text}
    (spelled : Spelled form.tokens text) :
    ∃ doc, scan text form.listName.text = .ok doc ∧ doc.text = text ∧
      doc.imports.map Import.content = form.imports.map ImportForm.content ∧
      doc.records.map Record.content = form.records ∧
      doc.elementCount = form.elements.length ∧
      doc.trailingComma = (form.trailing && !form.elements.isEmpty) := by
  obtain ⟨tokens, tokenized, same⟩ := spelled_iff.1 spelled
  have content :=
    (listContent_congr form.listName.text same).trans form.listContent_tokens
  have imports := importsOf_content (statements_tokens_congr same)
  rw [form.statements_tokens notImport, RegistryForm.importsOf_imports] at imports
  obtain ⟨is, read, contents⟩ := map_eq_ok_iff.1 imports
  obtain ⟨doc, scanned, view, rfl, text_eq⟩ :=
    exists_scan tokenized (form.balanced.of_bare same) content read
  refine ⟨doc, scanned, text_eq, contents, ?_, ?_, view.trailing⟩
  · rw [view.records, recordsOf, RegistryForm.records, List.filterMap_map]
    rfl
  · rw [view.count, List.length_map]

/-- A registry with every kind of import statement, an annotation with an arrow,
a record with every kind of value, and an element that is no record. -/
def sampleForm : RegistryForm where
  imports := [
    ⟨true, some (.both ⟨⟨'D', [], by decide⟩, by decide⟩ (.names [
      ⟨false, some ⟨'H', [], by decide⟩, ⟨⟨'A', [], by decide⟩, by decide⟩⟩,
      ⟨true, none, ⟨⟨'F', [], by decide⟩, by decide⟩⟩] true)),
      ⟨'\'', "./a'".toList, "./a".toList, by decide, by decide +kernel⟩, false⟩,
    ⟨false, some (.alone (.star ⟨⟨'N', [], by decide⟩, by decide⟩)),
      ⟨'"', "./\\x62\"".toList, "./b".toList, by decide, by decide +kernel⟩, true⟩,
    ⟨false, none,
      ⟨'"', "./c\"".toList, "./c".toList, by decide, by decide +kernel⟩, false⟩]
  listName := ⟨'v', "s".toList, by decide⟩
  annotation := [mark ':', mark '(', mark ')', mark '=', mark '>', .name 'V' [] 0]
  annotates := .plain rfl rfl rfl (.group ⟨rfl, rfl⟩ .nil
    (.arrow ⟨rfl, rfl⟩ rfl (.plain rfl rfl rfl .nil)))
  noImport := by decide
  elements := [
    .record [
      .pair (.string ⟨'\'', "id'".toList, "id".toList, by decide,
        by decide +kernel⟩)
        (.string ⟨'"', "a\"".toList, "a".toList, by decide, by decide +kernel⟩),
      .shorthand ⟨'F', [], by decide⟩,
      .pair (.word ⟨'n', [], by decide⟩) (.word ⟨'A', [], by decide⟩),
      .pair (.word ⟨'n', [], by decide⟩)
        (.expr [.name '1' [] 0, mark '+', .name '2' [] 0]
          (unbroken_of_plain (by decide)) (by decide))] false,
    .other [mark '.', mark '.', mark '.', .name 'm' [] 0]
      (unbroken_of_plain (by decide))
      (by decide) (not_isBlock_of_first (by decide))]
  trailing := true
  behind := [mark ';']
  balancedBehind := balanced_singleton rfl rfl
  noImportBehind := by decide

def sampleText : Text :=
  ("import type D, \x7b H as A, type F, \x7d from './a' // ;\n" ++
    "import*as N from\"./\\x62\";import/**/\"./c\"\n" ++
    "export const vs: () => V = [\n" ++
    "  \x7b 'id': \"a\", F, n: A, n: 1 + 2 \x7d, // \x7b id: 'b' \x7d,\n" ++
    "  ...m,\n" ++
    "];").toList

private theorem sampleText_spelled : Spelled sampleForm.tokens sampleText := by
  have read : (tokenize sampleText).map bare = .ok (bare sampleForm.tokens) := by
    decide +kernel
  exact spelled_iff.2 (map_eq_ok_iff.1 read)

theorem scan_of_spelled_sample :
    ∃ doc, scan sampleText "vs".toList = .ok doc ∧
      doc.imports.map Import.content = [
        ("./a".toList, some ['D'], [['D'], ['A'], ['F']]),
        ("./b".toList, none, [['N']]),
        ("./c".toList, none, [])] ∧
      doc.records.map Record.content =
        [[("id".toList, .string ['a'] '"'), (['F'], .name ['F']),
          (['n'], .name ['A'])]] ∧
      doc.elementCount = 2 ∧ doc.trailingComma = true := by
  obtain ⟨doc, scanned, -, imports, records, count, trailing⟩ :=
    scan_of_spelled sampleForm (by decide) sampleText_spelled
  exact ⟨doc, scanned, imports, records, count, trailing⟩

def namedImportForm : RegistryForm where
  imports := []
  listName := ⟨'i', "mport".toList, by decide⟩
  annotation := []
  annotates := .nil
  noImport := by decide
  elements := [.record [.pair (.word ⟨'i', ['d'], by decide⟩)
    (.string ⟨'\'', "a'".toList, ['a'], by decide, by decide +kernel⟩)] false]
  trailing := false
  behind := []
  balancedBehind := .nil
  noImportBehind := by decide

def namedImportText : Text := "export const import = [\x7b id: 'a' \x7d]".toList

/-- A list named `import` is read as a statement, up to the first literal in it.
Besides, a value must be a literal that can be decoded, and a comma follows an
element. -/
theorem scan_namedImport :
    (¬∀ (form : RegistryForm) (text : Text), Spelled form.tokens text →
      ∃ doc, scan text form.listName.text = .ok doc ∧
        doc.imports.map Import.content = form.imports.map ImportForm.content) ∧
      (∀ doc, scan "export const versions = [\x7b id: '\\x' \x7d]".toList
        "versions".toList ≠ .ok doc) ∧
      ∀ doc, scan "export const versions = [,]".toList "versions".toList ≠
        .ok doc := by
  have fails {text : Text} (h : (scan text "versions".toList).toOption = none) :
      ∀ doc, scan text "versions".toList ≠ .ok doc := by
    intro doc scanned
    rw [scanned] at h
    exact absurd h (Option.some_ne_none doc)
  refine ⟨fun claim => ?_, fails (by decide +kernel), fails (by decide +kernel)⟩
  have spelled : Spelled namedImportForm.tokens namedImportText := by
    have read : (tokenize namedImportText).map bare =
        .ok (bare namedImportForm.tokens) := by
      decide +kernel
    exact spelled_iff.2 (map_eq_ok_iff.1 read)
  obtain ⟨doc, scanned, imports⟩ := claim namedImportForm namedImportText spelled
  have found : (scan namedImportText "import".toList).map
      (·.imports.map Import.content) =
        .ok [(['a'], none, [['i', 'd']])] := by decide +kernel
  have read : doc.imports.map Import.content = [(['a'], none, [['i', 'd']])] := by
    have scanned' : scan namedImportText "import".toList = .ok doc := scanned
    rw [scanned', map_ok] at found
    exact Except.ok.inj found
  rw [imports] at read
  exact absurd read (List.cons_ne_nil _ _).symm

end Showcase.Registry

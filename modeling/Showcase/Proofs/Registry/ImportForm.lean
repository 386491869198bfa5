import Showcase.Proofs.Registry.Declaration
import Showcase.Proofs.Registry.Rewrite
import Showcase.Proofs.Registry.Spelling

/-!
# Forms of import statements

The import statements that the documentation of registries admits: for side
effects only, or with a default binding, a namespace or names in braces, which
can have aliases; `type` may stand before the clause and before each name.  They
are read as what they say (`statements_imports`,
`ImportForm.importOf_statement`).
-/

namespace Showcase.Registry

/-! ## Tokens as they are written -/

/-- A punctuation character. -/
def mark (c : Char) : Token := .punct c 0

structure Name where
  first : Char
  rest : Text
  named : ∀ c ∈ first :: rest, isNameChar c = true

namespace Name

def text (name : Name) : Text := name.first :: name.rest

def token (name : Name) : Token := .name name.first name.rest 0

end Name

def importWord : Token := .name 'i' "mport".toList 0

def typeWord : Token := .name 't' "ype".toList 0

def asWord : Token := .name 'a' "s".toList 0

def fromWord : Token := .name 'f' "rom".toList 0

/-- A literal with its value. -/
structure Literal where
  quote : Char
  rest : Text
  value : Text
  quoted : isQuote quote = true
  decoded : decode quote rest = .ok value

def Literal.token (literal : Literal) : Token :=
  .string literal.quote literal.rest 0

/-- Pieces with a comma behind each but the last, which may have one too. -/
def separated (trailing : Bool) : List (List Token) → List Chunk
  | [] => []
  | [piece] => [⟨piece, if trailing then some (mark ',') else none⟩]
  | piece :: next :: pieces =>
      ⟨piece, some (mark ',')⟩ :: separated trailing (next :: pieces)

theorem separated_tokens (trailing : Bool) (pieces : List (List Token)) :
    (separated trailing pieces).map Chunk.tokens = pieces := by
  fun_induction separated trailing pieces with
  | case1 => rfl
  | case2 => rfl
  | case3 piece next pieces ih => rw [List.map_cons, ih]

theorem separated_trailing (trailing : Bool) (pieces : List (List Token)) :
    ((separated trailing pieces).getLast?.bind Chunk.comma?).isSome =
      (trailing && !pieces.isEmpty) := by
  fun_induction separated trailing pieces with
  | case1 => simp
  | case2 => cases trailing <;> rfl
  | case3 piece next pieces ih =>
      have more : separated trailing (next :: pieces) ≠ [] := by
        cases pieces <;> simp [separated]
      obtain ⟨chunk, chunks, shape⟩ := List.exists_cons_of_ne_nil more
      rw [shape] at ih ⊢
      simpa [List.getLast?_cons_cons] using ih

theorem cut_separated {trailing : Bool} {pieces : List (List Token)}
    (h : ∀ piece ∈ pieces, Unbroken piece ∧ piece ≠ []) :
    Cut (separated trailing pieces) := by
  fun_induction separated trailing pieces with
  | case1 => exact .nil
  | case2 piece =>
      obtain ⟨unbroken, some⟩ := h piece (by simp)
      cases trailing with
      | false => exact .last unbroken some
      | true => exact .more unbroken rfl .nil
  | case3 piece next pieces ih =>
      exact .more (h piece (by simp)).1 rfl (ih fun piece mem =>
        h piece (by simp [mem]))

/-! ## Import statements -/

/-- A name that an import binds. -/
structure Binding extends Name where
  free : Bracketed.isClauseWord (first :: rest) = false

/-- A name in braces, with another one before it if it is an alias. -/
structure Specifier where
  typed : Bool
  imported? : Option Name
  binding : Binding

def Specifier.tokens (specifier : Specifier) : List Token :=
  (if specifier.typed then [typeWord] else []) ++
    (match specifier.imported? with
      | some name => [name.token, asWord]
      | none => []) ++
    [specifier.binding.token]

/-- What an import clause has besides a default binding. -/
inductive Group where
  | star (binding : Binding)
  | names (specifiers : List Specifier) (trailing : Bool)

namespace Group

def tokens : Group → List Token
  | .star binding => [mark '*', asWord, binding.token]
  | .names specifiers trailing =>
      mark '{' :: (join (separated trailing (specifiers.map Specifier.tokens)) ++
        [mark '}'])

def bound : Group → List Text
  | .star binding => [binding.text]
  | .names specifiers _ => specifiers.map (·.binding.text)

end Group

/-- An import clause: a default binding, a group, or both. -/
inductive Clause where
  | default (binding : Binding)
  | alone (group : Group)
  | both (binding : Binding) (group : Group)

namespace Clause

def tokens : Clause → List Token
  | .default binding => [binding.token]
  | .alone group => group.tokens
  | .both binding group => binding.token :: mark ',' :: group.tokens

def default? : Clause → Option Text
  | .default binding => some binding.text
  | .alone _ => none
  | .both binding _ => some binding.text

def bound : Clause → List Text
  | .default binding => [binding.text]
  | .alone group => group.bound
  | .both binding group => binding.text :: group.bound

end Clause

/-- An import statement.  Without a clause it is for side effects only. -/
structure ImportForm where
  typed : Bool
  clause? : Option Clause
  source : Literal
  semicolon : Bool

namespace ImportForm

def clauseTokens (form : ImportForm) : List Token :=
  match form.clause? with
  | none => []
  | some clause => (if form.typed then [typeWord] else []) ++ clause.tokens ++
      [fromWord]

def statement (form : ImportForm) : Statement :=
  ⟨importWord :: (form.clauseTokens ++ [form.source.token]),
    if form.semicolon then some (mark ';') else none⟩

def content (form : ImportForm) : Text × Option Text × List Text :=
  match form.clause? with
  | none => (form.source.value, none, [])
  | some clause => (form.source.value, clause.default?, clause.bound)

end ImportForm

/-! ## The names of a clause -/

private theorem namesOf_skip {t : Token}
    (h : ¬(t.kind = .name ∧ Bracketed.isClauseWord t.text = false))
    (next : List Token) : namesOf (t :: next) = namesOf next := by
  rw [namesOf_cons, if_neg h]

theorem Binding.binds (binding : Binding) :
    binding.token.kind = .name ∧
      Bracketed.isClauseWord binding.token.text = false :=
  ⟨rfl, binding.free⟩

private theorem namesOf_binding (binding : Binding) (next : List Token)
    (h : ∀ t ∈ next.head?, t.text ≠ "as".toList) :
    namesOf (binding.token :: next) = binding.text :: namesOf next := by
  have notAs : ¬next.head?.any (·.text == "as".toList) = true := by
    rw [Option.any_eq_true]
    rintro ⟨t, ahead, isAs⟩
    exact h t ahead (by simpa using isAs)
  rw [namesOf_cons, if_pos binding.binds, if_neg notAs]
  rfl

private theorem namesOf_alias (name : Name) (next : List Token) :
    namesOf (name.token :: asWord :: next) = namesOf next := by
  by_cases named : name.token.kind = .name ∧
    Bracketed.isClauseWord name.token.text = false
  · rw [namesOf, if_pos named, if_pos (by decide)]
  · rw [namesOf_skip named, namesOf_skip (by decide)]

private theorem Specifier.namesOf_append (specifier : Specifier) (next : List Token)
    (h : ∀ t ∈ next.head?, t.text ≠ "as".toList) :
    namesOf (specifier.tokens ++ next) = specifier.binding.text ::
      namesOf next := by
  obtain ⟨typed, imported?, binding⟩ := specifier
  have bound : namesOf (binding.token :: next) = binding.text :: namesOf next :=
    namesOf_binding binding next h
  have aliased : namesOf ((match imported? with
      | some name => [name.token, asWord]
      | none => []) ++ [binding.token] ++ next) = binding.text :: namesOf next := by
    cases imported? with
    | none => exact bound
    | some name => exact (namesOf_alias name _).trans bound
  cases typed with
  | false => exact aliased
  | true => exact (namesOf_skip (by decide) _).trans aliased

private theorem namesOf_specifiers (trailing : Bool)
    (specifiers : List Specifier) (next : List Token) :
    namesOf (join (separated trailing (specifiers.map Specifier.tokens)) ++
      mark '}' :: next) = specifiers.map (·.binding.text) ++ namesOf next := by
  have comma (ts : List Token) : namesOf (mark ',' :: ts) = namesOf ts :=
    namesOf_skip (by decide) ts
  have close (ts : List Token) : namesOf (mark '}' :: ts) = namesOf ts :=
    namesOf_skip (by decide) ts
  induction specifiers with
  | nil => exact close next
  | cons specifier specifiers ih =>
      cases specifiers with
      | nil =>
          cases trailing with
          | false =>
              have := specifier.namesOf_append (mark '}' :: next)
                (by simp [mark, Token.text])
              simpa [separated, Chunk.all, close] using this
          | true =>
              have := specifier.namesOf_append (mark ',' :: mark '}' :: next)
                (by simp [mark, Token.text])
              simpa [separated, Chunk.all, close, comma] using this
      | cons specifier' specifiers =>
          have := specifier.namesOf_append
            (mark ',' :: (join (separated trailing ((specifier' :: specifiers).map
              Specifier.tokens)) ++ mark '}' :: next)) (by simp [mark, Token.text])
          rw [comma, ih] at this
          simpa [separated, Chunk.all] using this

private theorem Group.namesOf_append (group : Group) {next : List Token}
    (h : ∀ t ∈ next.head?, t.text ≠ "as".toList) :
    namesOf (group.tokens ++ next) = group.bound ++ namesOf next := by
  cases group with
  | star binding =>
      have : namesOf (mark '*' :: asWord :: binding.token :: next) =
          binding.text :: namesOf next := by
        rw [namesOf_skip (by decide), namesOf_skip (by decide),
          namesOf_binding binding next h]
      exact this
  | names specifiers trailing =>
      have := namesOf_specifiers trailing specifiers next
      rw [tokens, List.cons_append, namesOf_skip (by decide), List.append_assoc]
      exact this

private theorem Clause.namesOf_append (clause : Clause) {next : List Token}
    (h : ∀ t ∈ next.head?, t.text ≠ "as".toList) :
    namesOf (clause.tokens ++ next) = clause.bound ++ namesOf next := by
  cases clause with
  | default binding => exact namesOf_binding binding next h
  | alone group => exact group.namesOf_append h
  | both binding group =>
      have := namesOf_binding binding (mark ',' :: (group.tokens ++ next))
        (by simp [mark, Token.text])
      have comma : namesOf (mark ',' :: (group.tokens ++ next)) =
          namesOf (group.tokens ++ next) :=
        namesOf_skip (by decide) _
      rw [comma, group.namesOf_append h] at this
      exact this

/-! ## What a statement says -/

theorem Binding.text_ne (binding : Binding) :
    binding.token.text ≠ "type".toList ∧ binding.token.text ≠ "from".toList := by
  have free : Bracketed.isClauseWord binding.token.text = false := binding.free
  simp only [Bracketed.isClauseWord, Bool.or_eq_false_iff, beq_eq_false_iff_ne]
    at free
  exact free.1

private theorem clauseOf_of_ne {ts : List Token}
    (h : ∀ t ∈ ts.head?, t.text ≠ "type".toList) :
    clauseOf ts = ts := by
  match ts with
  | [] => rfl
  | [_] => rfl
  | modifier :: t :: ts =>
      rw [clauseOf, if_neg]
      exact fun word => h modifier rfl word.1

private theorem clauseOf_binding (binding : Binding) (next : List Token) :
    clauseOf (typeWord :: binding.token :: next) = binding.token :: next := by
  rw [clauseOf, if_pos ⟨by decide, rfl, binding.text_ne.2⟩]

private theorem clauseOf_mark (c : Char) (next : List Token) :
    clauseOf (typeWord :: mark c :: next) = typeWord :: mark c :: next := by
  rw [clauseOf, if_neg (by simp [mark])]

private theorem defaultOf?_binding (binding : Binding) {t : Token}
    (h : t.text = "from".toList ∨ t.text = [',']) (next : List Token) :
    defaultOf? (binding.token :: t :: next) = some binding.text := by
  rw [defaultOf?, if_pos ⟨rfl, h⟩]
  rfl

private theorem Group.exists_mark (group : Group) :
    ∃ c ts, group.tokens = mark c :: ts ∧ c ≠ ',' := by
  cases group with
  | star binding => exact ⟨'*', _, rfl, by decide⟩
  | names specifiers trailing => exact ⟨'{', _, rfl, by decide⟩

theorem Clause.read (clause : Clause) (typed : Bool) {source : Token}
    (string : source.kind = .string) :
    let clauseTokens := (if typed then [typeWord] else []) ++ clause.tokens ++
      [fromWord, source]
    defaultOf? (clauseOf clauseTokens) = clause.default? ∧
      namesOf (clauseOf clauseTokens) = clause.bound := by
  have ends : namesOf [fromWord, source] = [] := by
    rw [namesOf_skip (by decide), namesOf_skip (by simp [string]), namesOf]
  have names : namesOf (clause.tokens ++ [fromWord, source]) = clause.bound := by
    rw [clause.namesOf_append (by rintro t ⟨⟩; decide), ends, List.append_nil]
  have withType : namesOf (typeWord :: (clause.tokens ++ [fromWord, source])) =
      clause.bound := by
    rw [namesOf_skip (by decide), names]
  cases clause with
  | default binding =>
      have default := defaultOf?_binding binding
        (.inl rfl : fromWord.text = _ ∨ _) [source]
      cases typed with
      | false =>
          have whole : clauseOf ([] ++ [binding.token] ++ [fromWord, source]) =
              binding.token :: [fromWord, source] :=
            clauseOf_of_ne (by rintro t ⟨⟩; exact binding.text_ne.1)
          exact ⟨(congrArg defaultOf? whole).trans default,
            (congrArg namesOf whole).trans names⟩
      | true =>
          have whole := clauseOf_binding binding [fromWord, source]
          exact ⟨(congrArg defaultOf? whole).trans default,
            (congrArg namesOf whole).trans names⟩
  | both binding group =>
      have default := defaultOf?_binding binding
        (.inr rfl : (mark ',').text = _ ∨ _)
        (group.tokens ++ [fromWord, source])
      cases typed with
      | false =>
          have whole :
              clauseOf ([] ++ (binding.token :: mark ',' :: group.tokens) ++
                [fromWord, source]) =
              binding.token :: mark ',' :: (group.tokens ++ [fromWord, source]) :=
            clauseOf_of_ne (by rintro t ⟨⟩; exact binding.text_ne.1)
          exact ⟨(congrArg defaultOf? whole).trans default,
            (congrArg namesOf whole).trans names⟩
      | true =>
          have whole := clauseOf_binding binding
            (mark ',' :: (group.tokens ++ [fromWord, source]))
          exact ⟨(congrArg defaultOf? whole).trans default,
            (congrArg namesOf whole).trans names⟩
  | alone group =>
      obtain ⟨c, ts, shape, notComma⟩ := group.exists_mark
      simp only [Clause.tokens, shape, List.cons_append] at names withType ⊢
      cases typed with
      | false =>
          have whole : clauseOf (mark c :: (ts ++ [fromWord, source])) =
              mark c :: (ts ++ [fromWord, source]) :=
            clauseOf_of_ne (by rintro t ⟨⟩; simp [mark, Token.text])
          refine ⟨(congrArg defaultOf? whole).trans ?_,
            (congrArg namesOf whole).trans names⟩
          cases ts <;> simp [defaultOf?, mark, Clause.default?]
      | true =>
          have whole := clauseOf_mark c (ts ++ [fromWord, source])
          refine ⟨(congrArg defaultOf? whole).trans ?_,
            (congrArg namesOf whole).trans withType⟩
          simp [defaultOf?, mark, Token.text, Clause.default?, notComma]

/-- A statement says what its form says. -/
theorem ImportForm.importOf_statement (form : ImportForm) :
    (importOf form.statement).map Import.content = .ok form.content := by
  obtain ⟨typed, clause?, source, semicolon⟩ := form
  have last :
      (importWord :: ((ImportForm.mk typed clause? source semicolon).clauseTokens ++
        [source.token])).getLast? = some source.token := by
    rw [← List.cons_append, List.getLast?_append]
    rfl
  have decoded : source.token.value = .ok source.value := source.decoded
  rw [importOf, statement, last]
  dsimp only
  rw [if_pos (by rfl : source.token.kind = .string), decoded, map_ok, map_ok]
  cases clause? with
  | none => rfl
  | some clause =>
      obtain ⟨default, names⟩ :=
        clause.read typed (by rfl : source.token.kind = .string)
      have same :
          (ImportForm.mk typed (some clause) source semicolon).clauseTokens ++
            [source.token] =
          (if typed then [typeWord] else []) ++ clause.tokens ++
            [fromWord, source.token] := by
        simp [clauseTokens]
      simp only [Import.content, List.tail_cons, same, content, default, names]

/-! ## The tokens of a statement -/

/-- What clauses are made of: names and a few marks. -/
def IsClauseToken (t : Token) : Prop :=
  (t.kind = .name ∧ isNameChar t.first = true) ∨ t = mark '*' ∨ t = mark '\x7b' ∨
    t = mark '\x7d' ∨ t = mark ','

private theorem mem_separated {trailing : Bool} {pieces : List (List Token)}
    {t : Token} (h : t ∈ join (separated trailing pieces)) :
    (∃ piece ∈ pieces, t ∈ piece) ∨ t = mark ',' := by
  fun_induction separated trailing pieces with
  | case1 => simp at h
  | case2 piece =>
      cases trailing with
      | false => exact .inl ⟨piece, by simp, by simpa [Chunk.all] using h⟩
      | true => simpa [Chunk.all] using h
  | case3 piece next pieces ih =>
      rw [join_cons, List.mem_append] at h
      rcases h with here | later
      · simp only [Chunk.all, Option.toList_some, List.mem_append,
          List.mem_singleton] at here
        exact here.imp (fun mem => ⟨piece, by simp, mem⟩) id
      · rcases ih later with ⟨other, mem, inside⟩ | comma
        · exact .inl ⟨other, List.mem_cons_of_mem _ mem, inside⟩
        · exact .inr comma

private theorem Name.isWord (name : Name) :
    name.token.kind = .name ∧ isNameChar name.token.first = true :=
  ⟨rfl, name.named _ List.mem_cons_self⟩

private theorem Specifier.isWord (specifier : Specifier) {t : Token}
    (mem : t ∈ specifier.tokens) :
    t.kind = .name ∧ isNameChar t.first = true := by
  obtain ⟨typed, imported?, binding⟩ := specifier
  simp only [tokens, List.mem_append, List.mem_singleton] at mem
  rcases mem with (inType | inAlias) | rfl
  · cases typed with
    | false => simp at inType
    | true =>
        obtain rfl : t = typeWord := by simpa using inType
        decide
  · cases imported? with
    | none => simp at inAlias
    | some name =>
        obtain rfl | rfl : t = name.token ∨ t = asWord := by simpa using inAlias
        · exact name.isWord
        · decide
  · exact binding.isWord

theorem Group.isClauseToken (group : Group) {t : Token} (mem : t ∈ group.tokens) :
    IsClauseToken t := by
  cases group with
  | star binding =>
      obtain rfl | rfl | rfl : t = mark '*' ∨ t = asWord ∨ t = binding.token := by
        simpa [tokens] using mem
      · exact .inr (.inl rfl)
      · exact .inl (by decide)
      · exact .inl binding.isWord
  | names specifiers trailing =>
      simp only [tokens, List.mem_cons, List.mem_append, List.not_mem_nil,
        or_false] at mem
      rcases mem with rfl | inside | rfl
      · exact .inr (.inr (.inl rfl))
      · rcases mem_separated inside with ⟨piece, isPiece, inPiece⟩ | rfl
        · obtain ⟨specifier, -, rfl⟩ := List.mem_map.1 isPiece
          exact .inl (specifier.isWord inPiece)
        · exact .inr (.inr (.inr (.inr rfl)))
      · exact .inr (.inr (.inr (.inl rfl)))

theorem Clause.isClauseToken (clause : Clause) {t : Token}
    (mem : t ∈ clause.tokens) :
    IsClauseToken t := by
  cases clause with
  | default binding =>
      obtain rfl : t = binding.token := by simpa [tokens] using mem
      exact .inl binding.isWord
  | alone group => exact group.isClauseToken mem
  | both binding group =>
      simp only [tokens, List.mem_cons] at mem
      rcases mem with rfl | rfl | inGroup
      · exact .inl binding.isWord
      · exact .inr (.inr (.inr (.inr rfl)))
      · exact group.isClauseToken inGroup

theorem ImportForm.isClauseToken (form : ImportForm) {t : Token}
    (mem : t ∈ form.clauseTokens) :
    IsClauseToken t := by
  unfold clauseTokens at mem
  split at mem
  next => simp at mem
  next clause _ =>
    simp only [List.mem_append, List.mem_singleton] at mem
    rcases mem with (inType | inClause) | rfl
    · split at inType
      · obtain rfl : t = typeWord := by simpa using inType
        exact .inl (by decide)
      · simp at inType
    · exact clause.isClauseToken inClause
    · exact .inl (by decide)

theorem IsClauseToken.kind_ne {t : Token} (h : IsClauseToken t) :
    t.kind ≠ .string := by
  rcases h with ⟨named, -⟩ | rfl | rfl | rfl | rfl
  · simp [named]
  all_goals simp [mark]

theorem IsClauseToken.text_ne {t : Token} (h : IsClauseToken t) :
    t.text ≠ ['('] ∧ t.text ≠ ['.'] := by
  rcases h with ⟨-, named⟩ | rfl | rfl | rfl | rfl
  · constructor
    all_goals
      intro same
      rw [(List.cons.inj same).1] at named
      exact absurd named (by decide)
  all_goals decide

theorem balanced_of_kind {ts : List Token} (h : ∀ t ∈ ts, t.kind ≠ .punct) :
    Balanced ts :=
  (unbroken_of_plain fun t mem => Token.plain_of_kind (h t mem)).1

theorem Specifier.unbroken (specifier : Specifier) : Unbroken specifier.tokens :=
  unbroken_of_plain fun t mem =>
    Token.plain_of_kind (by simp [specifier.isWord mem])

theorem Specifier.tokens_ne_nil (specifier : Specifier) :
    specifier.tokens ≠ [] := by
  simp [tokens]

theorem Group.balanced (group : Group) : Balanced group.tokens := by
  cases group with
  | star binding =>
      have plain : ∀ t ∈ (Group.star binding).tokens,
          t.closer? = none ∧ t.closes = false ∧ t.isPunct ',' = false := by
        intro t mem
        obtain rfl | rfl | rfl : t = mark '*' ∨ t = asWord ∨ t = binding.token := by
          simpa [tokens] using mem
        · decide
        · decide
        · exact Token.plain_of_kind (by simp [Name.token])
      exact (unbroken_of_plain plain).1
  | names specifiers trailing =>
      refine .group ⟨rfl, rfl⟩ (cut_separated fun piece mem => ?_).balanced .nil
      obtain ⟨specifier, -, rfl⟩ := List.mem_map.1 mem
      exact ⟨specifier.unbroken, specifier.tokens_ne_nil⟩

theorem Clause.balanced (clause : Clause) : Balanced clause.tokens := by
  have one (binding : Binding) : Balanced [binding.token] :=
    balanced_of_kind (by simp [Name.token])
  cases clause with
  | default binding => exact one binding
  | alone group => exact group.balanced
  | both binding group =>
      exact (one binding).append
        ((balanced_comma (by decide)).append group.balanced)

theorem ImportForm.balanced (form : ImportForm) : Balanced form.statement.all := by
  obtain ⟨typed, clause?, source, semicolon⟩ := form
  have source' : Balanced [source.token] :=
    balanced_of_kind (by simp [Literal.token])
  have clause :
      Balanced (ImportForm.mk typed clause? source semicolon).clauseTokens := by
    cases clause? with
    | none => exact .nil
    | some clause =>
        have modifier : Balanced (if typed then [typeWord] else []) := by
          cases typed
          · exact .nil
          · exact balanced_of_kind (by decide)
        exact (modifier.append clause.balanced).append
          (balanced_of_kind (by decide))
  have word : Balanced [importWord] := balanced_of_kind (by decide)
  have all := word.append (clause.append source')
  cases semicolon with
  | false => simpa [statement, Statement.all] using all
  | true =>
      have : Balanced [mark ';'] := balanced_singleton rfl rfl
      exact all.append this

/-! ## Statements in a row -/

/-- Import statements in a row, and nothing that goes on with the last, are read
one by one. -/
theorem statements_imports (forms : List ImportForm) {rest : List Token}
    (notSemicolon : ∀ t ∈ rest.head?, t.text ≠ [';']) {prev? : Option Token}
    (noDot : prev?.any (·.text == ['.']) = false) :
    statements prev? 0 (forms.flatMap (·.statement.all) ++ rest) =
      forms.map ImportForm.statement ++ statements none 0 rest := by
  induction forms generalizing prev? with
  | nil => exact statements_congr rest 0 noDot rfl
  | cons form forms ih =>
      rw [List.flatMap_cons, List.append_assoc]
      generalize following : forms.flatMap (·.statement.all) ++ rest = more at ih ⊢
      have apart : ∀ t ∈ more.head?, t.text ≠ [';'] := by
        rw [← following]
        cases forms with
        | nil => exact notSemicolon
        | cons form' forms =>
            rintro t ⟨⟩
            decide
      have noStrings : ∀ t ∈ form.clauseTokens, t.kind ≠ .string :=
        fun t mem => (form.isClauseToken mem).kind_ne
      have notPunct (c : Char) (unquoted : isQuote c = false) :
          form.source.token.text ≠ [c] := by
        intro same
        have quoted := form.source.quoted
        rw [show form.source.quote = c from (List.cons.inj same).1, unquoted]
          at quoted
        contradiction
      have start : starts prev? importWord (form.clauseTokens ++
          [form.source.token]).head? = true := by
        have next : ∃ t, (form.clauseTokens ++ [form.source.token]).head? = some t ∧
            t.text ≠ ['('] ∧ t.text ≠ ['.'] := by
          cases shape : form.clauseTokens with
          | nil => exact ⟨form.source.token, rfl, notPunct _ rfl, notPunct _ rfl⟩
          | cons t ts =>
              exact ⟨t, rfl, (form.isClauseToken (by rw [shape]; simp)).text_ne⟩
        obtain ⟨t, head, differs⟩ := next
        simp only [starts, head, noDot, Option.any_some, Bool.and_eq_true,
          bne_iff_ne]
        exact ⟨by decide, differs⟩
      have semicolon : ∀ c ∈ form.statement.semicolon?, c.text = [';'] := by
        intro c mem
        simp only [ImportForm.statement] at mem
        split at mem
        · cases mem
          rfl
        · simp at mem
      have none' : more.head?.filter (·.text == [';']) = none := by
        rw [Option.filter_eq_none_iff]
        intro t mem
        simpa using apart t mem
      have last : (form.statement.semicolon?.getD form.source.token).text ≠
          ['.'] := by
        cases behind : form.statement.semicolon? with
        | none => exact notPunct _ rfl
        | some c => simp [semicolon c behind]
      rw [Statement.statements_all rfl start noStrings rfl semicolon, none',
        Option.or_none, ih (by simpa using last)]
      rfl

end Showcase.Registry

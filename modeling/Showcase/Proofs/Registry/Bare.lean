import Mathlib.Data.List.Basic
import Showcase.Proofs.Registry.Chain
import Showcase.Proofs.Registry.Keeping

/-!
# Tokens without positions

What is read from a token list does not depend on where its tokens stand.
-/

namespace Showcase.Registry

namespace Token

@[simp] theorem bare_kind (t : Token) : t.bare.kind = t.kind := rfl

@[simp] theorem bare_first (t : Token) : t.bare.first = t.first := rfl

@[simp] theorem bare_rest (t : Token) : t.bare.rest = t.rest := rfl

@[simp] theorem bare_value (t : Token) : t.bare.value = t.value := rfl

@[simp] theorem bare_text (t : Token) : t.bare.text = t.text := rfl

@[simp] theorem bare_closer? (t : Token) : t.bare.closer? = t.closer? := rfl

@[simp] theorem bare_closes (t : Token) : t.bare.closes = t.closes := rfl

@[simp] theorem bare_isPunctIn (t : Token) (cs : List Char) :
    t.bare.isPunctIn cs = t.isPunctIn cs := rfl

@[simp] theorem bare_await (t : Token) (stack : List Char) :
    t.bare.await stack = t.await stack := rfl

end Token

def bare (ts : List Token) : List Token := ts.map Token.bare

@[simp] theorem bare_nil : bare [] = [] := rfl

@[simp] theorem bare_cons (t : Token) (ts : List Token) :
    bare (t :: ts) = t.bare :: bare ts := rfl

@[simp] theorem bare_append (ts ts' : List Token) :
    bare (ts ++ ts') = bare ts ++ bare ts' :=
  List.map_append

@[simp] theorem bare_eq_nil {ts : List Token} :
    bare ts = [] ↔ ts = [] := List.map_eq_nil_iff

@[simp] theorem length_bare (ts : List Token) :
    (bare ts).length = ts.length := List.length_map _

@[simp] theorem bare_bare (ts : List Token) : bare (bare ts) = bare ts := by
  simp [bare, Token.bare]

def Chunk.bare (chunk : Chunk) : Chunk :=
  ⟨Registry.bare chunk.tokens, chunk.comma?.map Token.bare⟩

def Statement.bare (statement : Statement) : Statement :=
  ⟨Registry.bare statement.tokens, statement.semicolon?.map Token.bare⟩

theorem keeps_bare :
    Keeps Token.bare := ⟨fun _ => rfl, fun _ => rfl, fun _ _ => rfl⟩

private theorem balanced_bare {ts : List Token} :
    Balanced (bare ts) ↔ Balanced ts := balanced_map keeps_bare

/-- Tokens with the same texts are balanced alike. -/
theorem Balanced.of_bare {ts ts' : List Token} (h : Balanced ts)
    (same : bare ts' = bare ts) :
    Balanced ts' := by
  rwa [← balanced_bare, same, balanced_bare]

theorem seek_bare (stops : List Char) (depth : Nat) (ts : List Token) :
    seek stops depth (bare ts) = bare (seek stops depth ts) :=
  seek_map keeps_bare stops depth ts

theorem chunksOf_bare (body : List Token) :
    chunksOf (bare body) = (chunksOf body).map Chunk.bare :=
  chunksOf_map keeps_bare body

/-! ## Fields -/

def Field.content (field : Field) : Text × FieldValue := (field.name, field.value)

theorem groupBody?_bare (piece : List Token) :
    groupBody? (bare piece) = (groupBody? piece).map bare :=
  groupBody?_map keeps_bare piece

private theorem valueOf_bare (name : Text) (value : List Token) :
    (valueOf name (bare value)).map (·.map Field.content) =
      (valueOf name value).map (·.map Field.content) := by
  match value with
  | [] => rfl
  | [t] =>
      cases kind : t.kind with
      | string =>
          simp only [bare_cons, bare_nil, valueOf, Token.bare_kind, kind, if_true,
            Token.bare_first, Token.bare_value]
          cases t.value <;> rfl
      | name => simp [valueOf, kind, Field.content]
      | punct => simp [valueOf, kind, Field.content]
  | t :: u :: ts => rfl

theorem fieldOf_bare (piece : List Token) :
    (fieldOf (bare piece)).map (·.map Field.content) =
      (fieldOf piece).map (·.map Field.content) := by
  cases piece with
  | nil => rfl
  | cons key rest =>
      have same : Bracketed.keyName key.bare = Bracketed.keyName key := rfl
      by_cases punct : key.kind = .punct
      · simp [fieldOf, punct]
      · have punct' : ¬key.bare.kind = .punct := punct
        rw [bare_cons, fieldOf, fieldOf, if_neg punct, if_neg punct', same]
        cases Bracketed.keyName key with
        | error fault => rfl
        | ok name =>
            simp only [ok_bind]
            cases rest with
            | nil => cases kind : key.kind <;> simp [kind, Field.content]
            | cons colon value =>
                by_cases isColon : colon.text = [':']
                · simpa [isColon] using valueOf_bare name value
                · simp [isColon]

/-! ## The list -/

theorem declared_bare (listName : Text) (prev? : Option Token) (t : Token) :
    declared listName (prev?.map Token.bare) t.bare = declared listName prev? t :=
  declared_map keeps_bare listName prev? t

theorem assignmentOf_bare (ts : List Token) :
    assignmentOf (bare ts) = bare (assignmentOf ts) :=
  assignmentOf_map keeps_bare ts

theorem opened?_bare (ts : List Token) :
    opened? (bare ts) = (opened? ts).map bare :=
  opened?_map keeps_bare ts

theorem listFrom?_bare (listName : Text) (prev? : Option Token) (ts : List Token) :
    listFrom? listName (prev?.map Token.bare) (bare ts) =
      (listFrom? listName prev? ts).map bare :=
  listFrom?_map keeps_bare listName prev? ts

/-! ## Import statements -/

theorem starts_bare (prev? : Option Token) (t : Token) (next? : Option Token) :
    starts (prev?.map Token.bare) t.bare (next?.map Token.bare) =
      starts prev? t next? :=
  starts_map keeps_bare prev? t next?

theorem head?_bare (ts : List Token) :
    (bare ts).head? = ts.head?.map Token.bare := List.head?_map

theorem getLast?_bare (ts : List Token) :
    (bare ts).getLast? = ts.getLast?.map Token.bare :=
  List.getLast?_map

theorem statements_bare (prev? : Option Token) (depth : Nat) (ts : List Token) :
    statements (prev?.map Token.bare) depth (bare ts) =
      (statements prev? depth ts).map Statement.bare :=
  statements_map keeps_bare prev? depth ts

theorem statements_tokens_congr {ts ts' : List Token} (same : bare ts = bare ts') :
    (statements none 0 ts).map (bare ·.tokens) =
      (statements none 0 ts').map (bare ·.tokens) := by
  have one := statements_bare none 0 ts
  rw [same, Option.map_none, ← Option.map_none, statements_bare none 0 ts'] at one
  have := congrArg (List.map Statement.tokens) one
  simpa [List.map_map, Function.comp_def, Statement.bare] using this.symm

/-- What an import statement says. -/
def Import.content (statement : Import) : Text × Option Text × List Text :=
  (statement.source, statement.defaultName?, statement.names)

private theorem clauseOf_bare (ts : List Token) :
    clauseOf (bare ts) = bare (clauseOf ts) :=
  clauseOf_map keeps_bare ts

private theorem defaultOf?_bare (ts : List Token) :
    defaultOf? (bare ts) = defaultOf? ts :=
  defaultOf?_map keeps_bare ts

private theorem namesOf_bare (ts : List Token) :
    namesOf (bare ts) = namesOf ts := namesOf_map keeps_bare ts

private theorem importOf_content {s s' : Statement}
    (same : bare s.tokens = bare s'.tokens) :
    (importOf s).map Import.content = (importOf s').map Import.content := by
  have content (s : Statement) : (importOf s).map Import.content =
      (bare s.tokens).getLast?.elim (.error .importWithoutSource) fun source =>
        if source.kind = .string then
          source.value.map fun path =>
            (path, defaultOf? (clauseOf (bare s.tokens).tail),
              namesOf (clauseOf (bare s.tokens).tail))
        else .error .importWithoutSource := by
    have tail : (bare s.tokens).tail = bare s.tokens.tail := List.map_tail.symm
    rw [importOf, getLast?_bare, tail, clauseOf_bare, defaultOf?_bare, namesOf_bare]
    cases s.tokens.getLast? with
    | none => rfl
    | some source =>
        by_cases string : source.kind = .string
        · simp only [Option.map_some, Option.elim_some, Token.bare_kind,
            string, if_true, Token.bare_value]
          cases source.value <;> rfl
        · simp [string]
  rw [content s, content s', same]

theorem importsOf_cons_content (s : Statement) (ss : List Statement) :
    (importsOf (s :: ss)).map (·.map Import.content) =
      (importOf s).map Import.content >>= fun first =>
        ((importsOf ss).map (·.map Import.content)).map (first :: ·) := by
  rw [importsOf]
  cases importOf s with
  | error fault => rfl
  | ok statement => cases importsOf ss <;> rfl

theorem importsOf_content {ss ss' : List Statement}
    (same : ss.map (bare ·.tokens) = ss'.map (bare ·.tokens)) :
    (importsOf ss).map (·.map Import.content) =
      (importsOf ss').map (·.map Import.content) := by
  induction ss generalizing ss' with
  | nil =>
      obtain rfl : ss' = [] := by simpa using same.symm
      rfl
  | cons s ss ih =>
      obtain ⟨s', ss', rfl, first, later⟩ := List.map_eq_cons_iff.1 same.symm
      rw [importsOf_cons_content, importsOf_cons_content, importOf_content first,
        ih later.symm]

end Showcase.Registry

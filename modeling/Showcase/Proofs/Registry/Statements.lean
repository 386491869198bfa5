import Showcase.Proofs.Registry.Lexeme
import Showcase.Proofs.Registry.Walk
import Showcase.Registry.Import

/-!
# Import statements in a token list

`statements` gives the tokens of every import statement outside brackets: from
the word `import` up to the next literal.  `importsFrom` reads exactly these
(`importsFrom_eq`).
-/

namespace Showcase.Registry

/-- Whether the text of a token is one that the tokenizer gives its kind. -/
def Token.Genuine (t : Token) : Prop := Lexeme (some t.kind) t.text

theorem Token.Genuine.quoted {t : Token} (h : t.Genuine)
    (string : t.kind = .string) :
    isQuote t.first = true := by
  unfold Genuine at h
  rw [string] at h
  cases h with
  | string quoted _ => exact quoted

theorem Token.text_ne_of_string {t : Token} (h : t.Genuine)
    (string : t.kind = .string) {text : Text}
    (unquoted : text.head?.any isQuote = false) : t.text ≠ text := by
  rintro rfl
  simp [Token.text, h.quoted string] at unquoted

/-! ## The tokens of a statement -/

def starts (prev? : Option Token) (t : Token) (next? : Option Token) : Bool :=
  t.kind == .name && t.text == "import".toList && !prev?.any (·.text == ['.'])
    && next?.any fun next => next.text != ['('] && next.text != ['.']

/-- The tokens up to and with the first literal, and those behind it. -/
def upToLiteral : List Token → List Token × List Token
  | [] => ([], [])
  | t :: ts =>
      if t.kind = .string then ([t], ts)
      else (t :: (upToLiteral ts).1, (upToLiteral ts).2)

private theorem upToLiteral_append (ts : List Token) :
    (upToLiteral ts).1 ++ (upToLiteral ts).2 = ts := by
  induction ts with
  | nil => rfl
  | cons t ts ih =>
      rw [upToLiteral]
      split
      · rfl
      · simp [ih]

/-- An import statement: its tokens up to its source, and the semicolon behind
it. -/
structure Statement where
  tokens : List Token
  semicolon? : Option Token
  deriving DecidableEq, Repr

/-- The import statements of some tokens, if `depth` brackets are open at first. -/
def statements (prev? : Option Token) (depth : Nat) (ts : List Token) :
    List Statement :=
  match depth, ts with
  | _, [] => []
  | depth + 1, t :: ts =>
      statements (some t)
        (if t.closer?.isSome then depth + 2 else if t.closes then
          depth else depth + 1) ts
  | 0, t :: ts =>
      if t.closer?.isSome then statements (some t) 1 ts
      else if starts prev? t ts.head? then
        let parts := upToLiteral ts
        ⟨t :: parts.1, parts.2.head?.filter (·.text == [';'])⟩
          :: statements parts.1.getLast? 0 parts.2
      else statements (some t) 0 ts
termination_by ts.length
decreasing_by
  · simp
  · simp
  · have := congrArg List.length (upToLiteral_append ts)
    simp only [List.length_append] at this
    simp only [List.length_cons]
    omega
  · simp

/-! ## What a statement says -/

/-- The clause behind the word `import`, without the modifier `type`. -/
def clauseOf : List Token → List Token
  | modifier :: t :: ts =>
      if modifier.text = "type".toList ∧ t.kind = .name ∧
        t.text ≠ "from".toList then t :: ts
      else modifier :: t :: ts
  | ts => ts

def defaultOf? : List Token → Option Text
  | t :: next :: _ =>
      if t.kind = .name ∧ (next.text = "from".toList ∨ next.text = [',']) then
        some t.text else none
  | _ => none

def namesOf : List Token → List Text
  | [] => []
  | [t] => if t.kind = .name ∧ Bracketed.isClauseWord t.text = false then
      [t.text] else []
  | t :: next :: ts =>
      if t.kind = .name ∧ Bracketed.isClauseWord t.text = false then
        if next.text = "as".toList then namesOf ts else
          t.text :: namesOf (next :: ts)
      else namesOf (next :: ts)

open Bracketed in
def importOf (statement : Statement) (read : LiteralReader := Token.value) :
    Except Fault Import :=
  match statement.tokens.getLast? with
  | none => .error .importWithoutSource
  | some source =>
      if source.kind = .string then
        (read source).map fun path =>
          ⟨⟨(statement.tokens.head?.map Token.start).getD 0,
              (statement.semicolon?.getD source).stop⟩,
            path, defaultOf? (clauseOf statement.tokens.tail),
            namesOf (clauseOf statement.tokens.tail)⟩
      else .error .importWithoutSource

/-- The import statements of some tokens, read in order. -/
def importsOf (statements : List Statement) (read : LiteralReader := Token.value) :
    Except Fault (List Import) :=
  match statements with
  | [] => .ok []
  | statement :: later =>
      importOf statement read >>= fun first =>
        (importsOf later read).map (first :: ·)

/-! ## Reading on -/

private theorem upToLiteral_append_of_none {u : List Token}
    (before : ∀ t ∈ u, t.kind ≠ .string) (ts : List Token) :
    upToLiteral (u ++ ts) = (u ++ (upToLiteral ts).1, (upToLiteral ts).2) := by
  induction u with
  | nil => rfl
  | cons t u ih =>
      rw [List.cons_append, upToLiteral, if_neg (before t (by simp)),
        ih fun t mem => before t (by simp [mem])]
      rfl

private theorem upToLiteral_of_source {u : List Token} {source : Token}
    (before : ∀ t ∈ u, t.kind ≠ .string) (string : source.kind = .string)
    (tail : List Token) :
    upToLiteral (u ++ source :: tail) = (u ++ [source], tail) := by
  rw [upToLiteral_append_of_none before, upToLiteral, if_pos string]

private theorem upToLiteral_of_none {u : List Token}
    (before : ∀ t ∈ u, t.kind ≠ .string) :
    upToLiteral u = (u, []) := by
  simpa [upToLiteral] using upToLiteral_append_of_none before []

theorem exists_literal (ts : List Token) :
    (∀ t ∈ ts, t.kind ≠ .string) ∨ ∃ u source tail, ts = u ++ source :: tail ∧
      (∀ t ∈ u, t.kind ≠ .string) ∧ source.kind = .string := by
  induction ts with
  | nil => exact .inl (by simp)
  | cons t ts ih =>
      by_cases string : t.kind = .string
      · exact .inr ⟨[], t, ts, rfl, by simp, string⟩
      · rcases ih with none | ⟨u, source, tail, rfl, before, isSource⟩
        · exact .inl (by simpa [string] using none)
        · exact .inr ⟨t :: u, source, tail, rfl, by simpa [string] using before,
            isSource⟩

theorem closer?_of_starts {prev? next? : Option Token} {t : Token}
    (h : starts prev? t next? = true) : t.closer? = none ∧ t.kind = .name := by
  simp only [starts, Bool.and_eq_true, beq_iff_eq] at h
  exact ⟨by simp [Token.closer?, h.1.1.1], h.1.1.1⟩

theorem text_of_starts {prev? next? : Option Token} {t : Token}
    (h : starts prev? t next? = true) :
    t.text = "import".toList := by
  simp only [starts, Bool.and_eq_true, beq_iff_eq] at h
  exact h.1.1.2

theorem Token.plain_of_semicolon {t : Token} (h : t.text = [';']) :
    t.closer? = none ∧ t.closes = false :=
  plain_of_text h rfl rfl

private theorem starts_semicolon {s : Token} (semicolon : s.text = [';'])
    (prev? next? : Option Token) :
    starts prev? s next? = false := by
  simp [starts, semicolon]

theorem statements_nil (prev? : Option Token) (depth : Nat) :
    statements prev? depth [] = [] := by
  rw [statements]

theorem statements_inside (prev? : Option Token) (depth : Nat) (t : Token)
    (ts : List Token) :
    statements prev? (depth + 1) (t :: ts) =
      statements (some t)
        (if t.closer?.isSome then depth + 2 else if t.closes then depth else
          depth + 1) ts := by
  rw [statements]

theorem statements_opening {t : Token} {closer : Char}
    (opening : t.closer? = some closer) (prev? : Option Token)
    (ts : List Token) :
    statements prev? 0 (t :: ts) = statements (some t) 1 ts := by
  rw [statements]
  simp [opening]

theorem statements_other {prev? : Option Token} {t : Token} {ts : List Token}
    (opening : t.closer? = none) (notStart : starts prev? t ts.head? = false) :
    statements prev? 0 (t :: ts) = statements (some t) 0 ts := by
  rw [statements]
  simp [opening, notStart]

theorem statements_semicolon {s : Token} (semicolon : s.text = [';'])
    (prev? : Option Token) (ts : List Token) :
    statements prev? 0 (s :: ts) = statements (some s) 0 ts :=
  statements_other (Token.plain_of_semicolon semicolon).1
  (starts_semicolon semicolon _ _)

private theorem statements_start {prev? : Option Token} {t : Token}
    {ts : List Token} (start : starts prev? t ts.head? = true) :
    statements prev? 0 (t :: ts) =
      ⟨t :: (upToLiteral ts).1, (upToLiteral ts).2.head?.filter (·.text == [';'])⟩
      ::
        statements (upToLiteral ts).1.getLast? 0 (upToLiteral ts).2 := by
  rw [statements]
  simp only [(closer?_of_starts start).1, start]
  rfl

theorem statements_unfinished {prev? : Option Token} {t : Token} {u : List Token}
    (start : starts prev? t u.head? = true) (before : ∀ t ∈ u, t.kind ≠ .string) :
    statements prev? 0 (t :: u) = [⟨t :: u, none⟩] := by
  rw [statements_start start, upToLiteral_of_none before, statements_nil]
  rfl

theorem head?_append_cons {α : Type} (l l' : List α) (a : α) :
    (l ++ a :: l').head? = (l ++ [a]).head? := by
  cases l <;> rfl

theorem statements_sourced {prev? : Option Token} {t source : Token}
    {u : List Token} (start : starts prev? t (u ++ [source]).head? = true)
    (before : ∀ t ∈ u, t.kind ≠ .string) (string : source.kind = .string)
    (tail : List Token) :
    statements prev? 0 (t :: (u ++ source :: tail)) =
      ⟨t :: (u ++ [source]), tail.head?.filter (·.text == [';'])⟩ ::
        statements (some source) 0 tail := by
  rw [← head?_append_cons u tail] at start
  rw [statements_start start, upToLiteral_of_source before string,
    List.getLast?_concat]

/-- Induction along the statements of some tokens. -/
@[elab_as_elim]
theorem statements_induction {motive : Option Token → Nat → List Token → Prop}
    (nil : ∀ prev? depth, motive prev? depth [])
    (inside : ∀ prev? depth t ts,
      motive (some t) (if t.closer?.isSome then depth + 2 else if t.closes then
        depth else depth + 1) ts → motive prev? (depth + 1) (t :: ts))
    (opening : ∀ prev? t ts closer, t.closer? = some closer →
      motive (some t) 1 ts → motive prev? 0 (t :: ts))
    (other : ∀ prev? t ts, t.closer? = none → starts prev? t ts.head? = false →
      motive (some t) 0 ts → motive prev? 0 (t :: ts))
    (unfinished : ∀ prev? t u, starts prev? t u.head? = true →
      (∀ x ∈ u, x.kind ≠ .string) → motive prev? 0 (t :: u))
    (sourced : ∀ prev? t u source tail, starts prev? t (u ++ [source]).head? =
      true → (∀ x ∈ u, x.kind ≠ .string) → source.kind = .string →
      motive (some source) 0 tail → motive prev? 0 (t :: (u ++ source :: tail)))
    (prev? : Option Token) (depth : Nat) (ts : List Token) :
    motive prev? depth ts := by
  fun_induction statements prev? depth ts with
  | case1 => exact nil _ _
  | case2 prev? depth t ts ih => exact inside prev? depth t ts ih
  | case3 prev? t ts isOpening ih =>
      obtain ⟨closer, isOpening⟩ := Option.isSome_iff_exists.1 isOpening
      exact opening prev? t ts closer isOpening ih
  | case4 prev? t ts notOpening start parts ih =>
      rcases exists_literal ts with none | ⟨u, source, tail, rfl, before, string⟩
      · exact unfinished prev? t ts start none
      · have made : parts = (u ++ [source], tail) :=
          upToLiteral_of_source before string tail
        rw [made, List.getLast?_concat] at ih
        rw [head?_append_cons] at start
        exact sourced prev? t u source tail start before string ih
  | case5 prev? t ts notOpening notStart ih =>
      exact other prev? t ts (by simpa using notOpening) (by simpa using notStart)
        ih

private theorem getLast?_cons_or {α : Type} (a : α) (l : List α)
    (prev? : Option α) :
    (a :: l).getLast?.or prev? = l.getLast?.or (some a) := by
  rw [List.getLast?_cons]
  cases l.getLast? <;> rfl

private theorem getLast?_behind {α : Type} (l l' : List α) (a b : α)
    (prev? : Option α) :
    (a :: (l ++ b :: l')).getLast?.or prev? = l'.getLast?.or (some b) := by
  rw [← List.cons_append, List.getLast?_append, Option.or_assoc, getLast?_cons_or]

/-- Inside brackets no statement is found. -/
theorem statements_append_of_awaited {stack stack' : List Char}
    {ts : List Token} (h : awaited stack ts = some stack') (depth : Nat)
    (prev? : Option Token) (rest : List Token) :
    statements prev? (stack.length + depth + 1) (ts ++ rest) =
      statements (ts.getLast?.or prev?) (stack'.length + depth + 1) rest := by
  induction ts generalizing stack prev? with
  | nil =>
      cases h
      rfl
  | cons t ts ih =>
      obtain ⟨next, step, behind⟩ := Option.bind_eq_some_iff.1 h
      rw [List.cons_append, statements_inside, Token.depth_of_await step, ih behind,
        getLast?_cons_or]

theorem statements_group {o c : Token} {inner : List Token} (pair : o.Pairs c)
    (inside : Balanced inner) (prev? : Option Token) (depth : Nat)
    (rest : List Token) :
    statements prev? depth (o :: (inner ++ c :: rest)) =
      statements (some c) depth rest := by
  have skip (prev? : Option Token) (depth : Nat) :
      statements prev? (depth + 1) (inner ++ c :: rest) =
        statements (some c) depth rest := by
    have := statements_append_of_awaited (inside.awaited_eq []) depth prev?
      (c :: rest)
    simp only [List.length_nil, Nat.zero_add] at this
    rw [this, statements_inside]
    simp [pair.closer?_eq_none, pair.closes]
  cases depth with
  | zero => rw [statements_opening pair.1, skip]
  | succ depth =>
      rw [statements_inside]
      simp only [pair.1, Option.isSome_some, if_true]
      exact skip _ (depth + 1)

/-! ## The same statements by index -/

theorem namesOf_cons (t : Token) (ts : List Token) :
    namesOf (t :: ts) =
      if t.kind = .name ∧ Bracketed.isClauseWord t.text = false then
        if ts.head?.any (·.text == "as".toList) then namesOf ts.tail else
          t.text :: namesOf ts
      else namesOf ts := by
  cases ts with
  | nil => rfl
  | cons next ts => simp [namesOf]

/-- The names bound before the first literal, which the index walk stops at. -/
private theorem boundNames_eq {b : Bracketed} {l u tail : List Token}
    (h : b.Represents (l ++ (u ++ tail))) (before : ∀ t ∈ u, t.kind ≠ .string)
    (literal : ∀ t ∈ tail.head?, t.kind = .string ∧ t.Genuine) :
    b.boundNames l.length = (namesOf (u ++ tail.take 1), l.length + u.length) := by
  induction len : u.length using Nat.strongRecOn generalizing l u with
  | _ n ih =>
    subst len
    have size := h.size_eq
    have here := h.token?_length
    cases u with
    | nil =>
        cases tail with
        | nil =>
            simp only [List.append_nil] at size
            rw [Bracketed.boundNames, if_neg (by omega)]
            simp [namesOf, size]
        | cons source tail =>
            have string := (literal source rfl).1
            simp only [List.nil_append, List.head?_cons] at here
            rw [Bracketed.boundNames, if_pos (by simp [size]), here]
            simp [string, namesOf]
    | cons t u =>
        have notString : t.kind ≠ .string := before t (by simp)
        have next := h.hasText_add 1 "as".toList
        simp only [List.cons_append, List.getElem?_cons_succ,
          ← List.head?_eq_getElem?] at next
        have ahead : (u ++ tail.take 1).head? = (u ++ tail).head? := by
          cases u <;> cases tail <;> rfl
        have later := ih u.length (by simp) (l := l ++ [t]) (u := u)
          (by simpa using h) (fun t mem => before t (by simp [mem])) rfl
        simp only [List.length_append, List.length_singleton] at later
        have behind : l.length + 1 + u.length = l.length + (t :: u).length := by
          simp
          omega
        rw [behind] at later
        simp only [List.cons_append, List.head?_cons] at here
        rw [Bracketed.boundNames, if_pos (by simp [size]), here, List.cons_append,
          namesOf_cons, ahead]
        simp only [notString, if_false, next, later]
        split
        next named =>
          by_cases isAs : (u ++ tail).head?.any (·.text == "as".toList)
          · -- a literal is no word, so that the word stands before it
            obtain ⟨a, u, rfl⟩ : ∃ a u', u = a :: u' := by
              cases u with
              | cons a u => exact ⟨a, u, rfl⟩
              | nil =>
                  obtain ⟨source, first, word⟩ := (Option.any_eq_true _ _).1 isAs
                  obtain ⟨string, genuine⟩ := literal source first
                  have notAs : source.text ≠ "as".toList :=
                    Token.text_ne_of_string genuine string (by decide)
                  exact absurd (by simpa using word) notAs
            have skipped := ih u.length (by simp only [List.length_cons]; omega)
              (l := l ++ [t, a])
              (u := u) (by simpa using h) (fun t mem => before t (by simp [mem]))
              rfl
            simp only [List.length_append, List.length_cons, List.length_nil]
              at skipped
            rw [if_pos isAs, if_pos isAs, skipped]
            simp
            omega
          · rw [if_neg isAs, if_neg isAs]
        next => rfl

theorem importOf_of_no_literal {t : Token} {u : List Token}
    (word : t.kind = .name) (before : ∀ t ∈ u, t.kind ≠ .string)
    (semicolon? : Option Token) (read : LiteralReader) :
    importOf ⟨t :: u, semicolon?⟩ read = .error .importWithoutSource := by
  unfold importOf
  cases final : (t :: u).getLast? with
  | none => rfl
  | some last =>
      have notSource : last.kind ≠ .string := by
        rcases List.mem_cons.1 (List.mem_of_getLast? final) with rfl | mem
        · simp [word]
        · exact before last mem
      simp only
      rw [if_neg notSource]

section Clause

variable {b : Bracketed} {l u tail : List Token} {t : Token}

private theorem clauseStart_eq (h : b.Represents (l ++ t :: (u ++ tail)))
    (literal : ∀ t ∈ tail.head?, t.kind = .string ∧ t.Genuine) :
    ∃ front u', u = front ++ u' ∧ clauseOf (u ++ tail.take 1) = u' ++ tail.take 1 ∧
      b.clauseStart l.length = (l ++ t :: front).length := by
  have first := h.hasText_add 1 "type".toList
  have second := h.token?_add 2
  simp only [List.getElem?_cons_succ] at first second
  unfold Bracketed.clauseStart
  rw [first, second]
  cases u with
  | nil =>
      refine ⟨[], [], rfl, ?_⟩
      cases tail with
      | nil => simp [clauseOf]
      | cons source tail =>
          obtain ⟨string, genuine⟩ := literal source rfl
          have notType : source.text ≠ ['t', 'y', 'p', 'e'] :=
            Token.text_ne_of_string genuine string (by decide)
          simp [clauseOf, notType]
  | cons modifier u =>
      by_cases isType : modifier.text = ['t', 'y', 'p', 'e']
      · cases u with
        | nil =>
            refine ⟨[], [modifier], rfl, ?_⟩
            cases tail with
            | nil => simp [clauseOf]
            | cons source tail =>
                obtain ⟨string, -⟩ := literal source rfl
                simp [clauseOf, string]
        | cons n u =>
            by_cases named : n.kind = .name ∧ n.text ≠ ['f', 'r', 'o', 'm']
            · exact ⟨[modifier], n :: u, rfl, by simp [clauseOf, isType, named],
                by simp [isType, named]⟩
            · refine ⟨[], modifier :: n :: u, rfl, ?_, ?_⟩
              · simp only [clauseOf, List.cons_append]
                rw [if_neg (fun isModifier => named isModifier.2)]
              · simp only [List.cons_append, List.getElem?_cons_zero,
                  List.getElem?_cons_succ, Option.any_some, isType]
                rw [if_pos (by decide), if_neg (by simpa using named)]
                simp
      · refine ⟨[], modifier :: u, rfl, ?_, by simp [isType]⟩
        cases u with
        | nil => cases tail <;> simp [clauseOf, isType]
        | cons n u => simp [clauseOf, isType]

private theorem defaultName?_eq (h : b.Represents (l ++ (u ++ tail)))
    (literal : ∀ t ∈ tail.head?, t.kind = .string ∧ t.Genuine) :
    b.defaultName? l.length = defaultOf? (u ++ tail.take 1) := by
  have first := h.token?_length
  have second := h.hasText_add 1
  unfold Bracketed.defaultName?
  rw [first]
  simp only [second]
  cases u with
  | nil =>
      cases tail with
      | nil => rfl
      | cons source tail =>
          obtain ⟨string, -⟩ := literal source rfl
          simp [defaultOf?, string]
  | cons n u =>
      cases u with
      | nil => cases tail <;> simp [defaultOf?]
      | cons next u => simp [defaultOf?]

theorem importAt_eq (h : b.Represents (l ++ t :: (u ++ tail)))
    (before : ∀ t ∈ u, t.kind ≠ .string)
    (literal : ∀ t ∈ tail.head?, t.kind = .string ∧ t.Genuine)
    (word : t.kind = .name) (read : LiteralReader) :
    b.importAt l.length t.start read =
      (importOf ⟨t :: (u ++ tail.take 1),
        (tail.drop 1).head?.filter (·.text == [';'])⟩ read).map
        fun statement => (statement, l.length + 1 + u.length +
          ((tail.drop 1).head?.filter (·.text == [';'])).toList.length) := by
  obtain ⟨front, u', rfl, clause, position⟩ := clauseStart_eq h literal
  have behind : b.Represents ((l ++ t :: front) ++ (u' ++ tail)) := by simpa using h
  have names := boundNames_eq behind (fun t mem => before t (by simp [mem])) literal
  have name := defaultName?_eq behind literal
  have found : b.token? ((l ++ t :: front).length + u'.length) = tail.head? := by
    have := behind.token?_add u'.length
    rw [List.getElem?_append_right (Nat.le_refl _), Nat.sub_self,
      ← List.head?_eq_getElem?] at this
    exact this
  have after (text : Text) :
      b.hasText ((l ++ t :: front).length + u'.length + 1) text =
        (tail.drop 1).head?.any (·.text == text) := by
    have := behind.hasText_add (u'.length + 1) text
    rw [List.getElem?_append_right (by omega), Nat.add_sub_cancel_left] at this
    rw [Nat.add_assoc, this, List.head?_drop]
  unfold Bracketed.importAt
  simp only [position, names, name, found, after]
  cases tail with
  | nil =>
      simp only [List.head?_nil, List.take_nil, List.append_nil,
        importOf_of_no_literal word before]
      rfl
  | cons source tail =>
      obtain ⟨string, -⟩ := literal source rfl
      have next : b.token? ((l ++ t :: front).length + u'.length + 1) =
          tail.head? := by
        have := behind.token?_add (u'.length + 1)
        rw [List.getElem?_append_right (by omega), Nat.add_sub_cancel_left] at this
        rw [Nat.add_assoc, this, List.getElem?_cons_succ, List.head?_eq_getElem?]
      have length : (l ++ t :: front).length + u'.length =
          l.length + 1 + (front ++ u').length := by
        simp
        omega
      have final : (t :: (front ++ u' ++ [source])).getLast? = some source := by
        rw [← List.cons_append, List.getLast?_concat]
      have clause' : clauseOf (front ++ u' ++ [source]) = u' ++ [source] := clause
      rw [length] at found next
      simp only [List.head?_cons, List.take_succ_cons, List.take_zero,
        List.drop_succ_cons,
        List.drop_zero, importOf, final, string, if_true, List.tail_cons,
        clause', length]
      cases semicolon : tail.head?.filter (·.text == [';']) with
      | none =>
          have notSemicolon : tail.head?.any (·.text == [';']) = false := by
            cases ahead : tail.head? with
            | none => rfl
            | some s => simpa [ahead, Option.filter] using semicolon
          simp only [notSemicolon, Bool.false_eq_true, if_false, found,
            List.head?_cons,
            Option.map_some, Option.getD_some, Option.getD_none, Option.toList_none,
            List.length_nil, Nat.add_zero]
          cases read source <;> rfl
      | some s =>
          obtain ⟨ahead, isSemicolon⟩ := Option.filter_eq_some_iff.1 semicolon
          simp only [ahead, Option.any_some, isSemicolon, if_true, next,
            Option.map_some,
            Option.getD_some, Option.toList_some, List.length_singleton]
          cases read source <;> rfl

end Clause

private theorem startsImport_eq {b : Bracketed} {l ts : List Token} {t : Token}
    (h : b.Represents (l ++ t :: ts)) :
    b.startsImport l.length = starts l.getLast? t ts.head? := by
  have here : b.token? l.length = some t := by simp [h.token?_length]
  have next (text : Text) := h.hasText_add 1 text
  simp only [List.getElem?_cons_succ, ← List.head?_eq_getElem?] at next
  have more : (l.length + 1 < b.size) ↔ ts.head?.isSome := by
    rw [h.size_eq, List.isSome_head?]
    cases ts <;> simp
  unfold Bracketed.startsImport starts
  rw [here]
  simp only [next, more]
  have before : (l.length == 0 || !b.hasText (l.length - 1) ['.']) =
      !l.getLast?.any (·.text == ['.']) := by
    rcases List.eq_nil_or_concat l with rfl | ⟨l, p, rfl⟩
    · rfl
    · rw [List.concat_eq_append] at h ⊢
      have := (List.append_assoc l [p] (t :: ts) ▸ h).hasText_add 0 ['.']
      rw [Nat.add_zero, List.singleton_append] at this
      simp only [List.length_append, List.length_singleton, Nat.add_sub_cancel,
        this]
      simp
  rw [before]
  cases ts with
  | nil => simp
  | cons n ts => simp [Bool.and_assoc, bne]

private theorem importsFrom_semicolon {b : Bracketed} {l ts : List Token}
    (h : b.Represents (l ++ ts)) (read : LiteralReader) :
    b.importsFrom (l.length + (ts.head?.filter (·.text == [';'])).toList.length)
      read = b.importsFrom l.length read := by
  cases semicolon : ts.head?.filter (·.text == [';']) with
  | none => rfl
  | some s =>
      obtain ⟨ahead, isSemicolon⟩ := Option.filter_eq_some_iff.1 semicolon
      obtain ⟨ts, rfl⟩ := List.head?_eq_some_iff.1 ahead
      have text : s.text = [';'] := by simpa using isSemicolon
      have single : b.partner? l.length = none :=
        h.single rfl (Token.plain_of_semicolon text).1
      conv_rhs => rw [Bracketed.importsFrom, if_pos (by simp [h.size_eq]),
        if_neg (by simp [single]),
        startsImport_eq h, starts_semicolon text, if_neg Bool.false_ne_true]
      rfl

/-- The index walk reads the statements of the list walk. -/
theorem importsFrom_eq {b : Bracketed} {l ts : List Token}
    (h : b.Represents (l ++ ts)) (genuine : ∀ t ∈ ts, t.Genuine)
    (read : LiteralReader) :
    b.importsFrom l.length read = importsOf (statements l.getLast? 0 ts) read := by
  -- both walks pass over a whole group at once, as the principle for
  -- `statements` does not
  induction len : ts.length using Nat.strongRecOn generalizing l ts with
  | _ n ih =>
    subst len
    have size := h.size_eq
    cases ts with
    | nil =>
        rw [Bracketed.importsFrom, if_neg (by simp [size]), statements_nil]
        rfl
    | cons t ts =>
        have here : b.token? l.length = some t := by simp [h.token?_length]
        rw [Bracketed.importsFrom, if_pos (by simp [size])]
        cases opening : t.closer? with
        | some closer =>
            obtain ⟨inner, c, rest, rfl, pair, inside, partner⟩ :=
              h.exists_partner opening
            have jump : b.next l.length = (l ++ t :: inner ++ [c]).length := by
              simp only [Bracketed.next, partner]
              simp
              omega
            have later := ih rest.length (by simp; omega)
              (l := l ++ t :: inner ++ [c])
              (by simpa using h) (fun t mem => genuine t (by simp [mem])) rfl
            rw [if_pos (by simp [partner]), jump, later,
              statements_group pair inside, List.getLast?_concat]
        | none =>
            have single : b.partner? l.length = none := h.single rfl opening
            rw [if_neg (by simp [single]), startsImport_eq h]
            cases start : starts l.getLast? t ts.head? with
            | false =>
                have later := ih ts.length (by simp) (l := l ++ [t])
                  (by simpa using h)
                  (fun t mem => genuine t (by simp [mem])) rfl
                rw [statements_other opening start]
                simpa using later
            | true =>
                have word := (closer?_of_starts start).2
                rw [if_pos rfl, here, Option.map_some, Option.getD_some]
                rcases exists_literal ts with
                  none | ⟨u, source, tail, rfl, before, string⟩
                · have all : b.Represents (l ++ t :: (ts ++ [])) := by simpa using h
                  rw [importAt_eq all none (by simp) word read,
                    statements_unfinished start none, importsOf]
                  simp [importOf_of_no_literal word none]
                · have here := importAt_eq h before
                    (by simpa [string] using genuine source (by simp)) word read
                  have behind : b.Represents ((l ++ t :: u ++ [source]) ++
                    tail) := by simpa using h
                  have later := ih tail.length (by simp; omega) behind
                    (fun t mem => genuine t (by simp [mem])) rfl
                  rw [List.getLast?_concat, ← importsFrom_semicolon behind read]
                    at later
                  rw [head?_append_cons] at start
                  rw [here, statements_sourced start before string,
                    importsOf, ← later]
                  simp only [List.take_succ_cons, List.take_zero,
                    List.drop_succ_cons, List.drop_zero]
                  cases importOf ⟨t :: (u ++ [source]),
                    tail.head?.filter (·.text == [';'])⟩ read with
                  | error fault => rfl
                  | ok statement =>
                      simp only [map_ok, ok_bind]
                      congr 2
                      simp
                      omega

/-! ## Where a statement stands -/

private theorem starts_next {prev? next? : Option Token} {t next : Token}
    (h : starts prev? t (some next) = false) (word : next.text = "import".toList) :
    starts prev? t next? = false := by
  simp only [starts, word, Option.any_some] at h ⊢
  revert h
  cases t.kind == .name && t.text == "import".toList &&
    !prev?.any (·.text == ['.']) with
  | false => simp
  | true => exact fun h => absurd h (by decide)

/-- Where a statement stands: behind `front`, which is read without it, and
before `back`. -/
structure Statement.Stands (s : Statement) (prev? : Option Token) (depth : Nat)
    (earlier later : List Statement) (front : List Token) (t : Token)
    (u back : List Token) :
    Prop where
  tokens : s.tokens = t :: u
  start : starts (front.getLast?.or prev?) t u.head? = true
  semicolon : s.semicolon? = back.head?.filter (·.text == [';'])
  later : later = statements (t :: u).getLast? 0 back
  earlier : ∀ rest, (statements prev? depth (front ++ rest)).map Statement.tokens =
    earlier.map Statement.tokens ++
      (statements (front.getLast?.or prev?) 0 rest).map Statement.tokens

namespace Statement.Stands

variable {s : Statement} {prev? : Option Token} {depth depth' : Nat}
  {earlier later : List Statement} {front u back : List Token} {t t' : Token}

theorem cons (h : s.Stands (some t') depth' earlier later front t u back)
    (same : ∀ rest, statements prev? depth (t' :: (front ++ rest)) =
      statements (some t') depth' (front ++ rest)) :
    s.Stands prev? depth earlier later (t' :: front) t u back := by
  refine ⟨h.tokens, ?_, h.semicolon, h.later, fun rest => ?_⟩
  · rw [getLast?_cons_or]
    exact h.start
  · rw [getLast?_cons_or, List.cons_append, same, h.earlier]

/-- What stands in front of a statement starts none, whatever takes the place of
the statement. -/
private theorem notStarts
    (h : s.Stands (some t') depth' earlier later front t u back)
    (notStart : starts prev? t' (front ++ (t :: u) ++ back).head? = false)
    (rest : List Token) :
    starts prev? t' (front ++ rest).head? = false := by
  cases front with
  | nil => exact starts_next notStart (text_of_starts h.start)
  | cons first front => exact notStart

theorem behind {v : List Token} {source : Token} {semicolon? : Option Token}
    (h : s.Stands (some source) 0 earlier later front t u back)
    (start : starts prev? t' (v ++ [source]).head? = true)
    (before : ∀ x ∈ v, x.kind ≠ .string) (string : source.kind = .string) :
    s.Stands prev? 0 (⟨t' :: (v ++ [source]), semicolon?⟩ :: earlier) later
      (t' :: (v ++ source :: front)) t u back := by
  refine ⟨h.tokens, ?_, h.semicolon, h.later, fun rest => ?_⟩
  · rw [getLast?_behind]
    exact h.start
  · have all : t' :: (v ++ source :: front) ++ rest =
      t' :: (v ++ source :: (front ++ rest)) := by simp
    rw [getLast?_behind, all, statements_sourced start before string,
      List.map_cons, h.earlier]
    rfl

end Statement.Stands

/-- Where a statement stands, and that the statements before it are found
without it. -/
theorem exists_of_statements {prev? : Option Token} {depth : Nat} {ts : List Token}
    {earlier later : List Statement} {s : Statement}
    (h : statements prev? depth ts = earlier ++ s :: later) :
    ∃ front t u back, ts = front ++ (t :: u) ++ back ∧
      s.Stands prev? depth earlier later front t u back := by
  induction prev?, depth, ts using statements_induction generalizing earlier with
  | nil => simp [statements_nil] at h
  | inside prev? depth t ts ih =>
      rw [statements_inside] at h
      obtain ⟨front, t', u, back, rfl, there⟩ := ih h
      exact ⟨t :: front, t', u, back, rfl, there.cons fun _ =>
        statements_inside _ _ _ _⟩
  | opening prev? t ts closer opening ih =>
      rw [statements_opening opening] at h
      obtain ⟨front, t', u, back, rfl, there⟩ := ih h
      exact ⟨t :: front, t', u, back, rfl, there.cons fun _ =>
        statements_opening opening _ _⟩
  | other prev? t ts opening notStart ih =>
      rw [statements_other opening notStart] at h
      obtain ⟨front, t', u, back, rfl, there⟩ := ih h
      exact ⟨t :: front, t', u, back, rfl, there.cons fun rest =>
        statements_other opening (there.notStarts notStart rest)⟩
  | unfinished prev? t u start before =>
      rw [statements_unfinished start before] at h
      obtain ⟨rfl, rfl, rfl⟩ : earlier = [] ∧ ⟨t :: u, none⟩ = s ∧ later = [] := by
        cases earlier <;> simp_all
      exact ⟨[], t, u, [], by simp, rfl, start, rfl, (statements_nil _ _).symm,
        fun rest => rfl⟩
  | sourced prev? t u source tail start before string ih =>
      rw [statements_sourced start before string] at h
      cases earlier with
      | nil =>
          obtain ⟨rfl, rfl⟩ := List.cons.inj h
          refine ⟨[], t, u ++ [source], tail, by simp, rfl, start, rfl, ?_,
            fun rest => rfl⟩
          rw [← List.cons_append, List.getLast?_concat]
      | cons first earlier =>
          obtain ⟨rfl, behind⟩ := List.cons.inj h
          obtain ⟨front, t', v, back, rfl, there⟩ := ih behind
          exact ⟨t :: (u ++ source :: front), t', v, back, by simp,
            there.behind start before string⟩

/-! ## Other token lists with the same statements -/

private theorem exists_running {prev? : Option Token} {t o : Token}
    {u : List Token} (start : starts prev? t (u ++ [o]).head? = true)
    (before : ∀ x ∈ u, x.kind ≠ .string) (back : List Token) :
    ∃ s ∈ statements prev? 0 (t :: (u ++ o :: back)), o ∈ s.tokens := by
  rw [← head?_append_cons u back] at start
  rw [statements_start start, upToLiteral_append_of_none before]
  refine ⟨_, List.mem_cons_self,
    List.mem_cons_of_mem _ (List.mem_append_right _ ?_)⟩
  rw [upToLiteral]
  split <;> simp

theorem starts_append {prev? : Option Token} {t : Token} {u : List Token}
    (start : starts prev? t u.head? = true) (ts : List Token) :
    starts prev? t (u ++ ts).head? = true := by
  cases u with
  | nil => simp [starts] at start
  | cons first u => exact start

/-- What stands before a token that no statement holds is read whatever follows
the token. -/
private theorem exists_of_clear {prev? : Option Token} {depth : Nat}
    {front back : List Token} {o : Token}
    (clear : ∀ s ∈ statements prev? depth (front ++ o :: back), o ∉ s.tokens) :
    ∃ depth' earlier, ∀ back', statements prev? depth (front ++ o :: back') =
      earlier ++ statements (front.getLast?.or prev?) depth' (o :: back') := by
  induction prev?, depth, front using statements_induction with
  | nil prev? depth => exact ⟨depth, [], fun _ => rfl⟩
  | inside prev? depth t front ih =>
      rw [List.cons_append, statements_inside] at clear
      obtain ⟨depth', earlier, same⟩ := ih clear
      refine ⟨depth', earlier, fun back' => ?_⟩
      rw [List.cons_append, statements_inside, same, getLast?_cons_or]
  | opening prev? t front closer opening ih =>
      rw [List.cons_append, statements_opening opening] at clear
      obtain ⟨depth', earlier, same⟩ := ih clear
      refine ⟨depth', earlier, fun back' => ?_⟩
      rw [List.cons_append, statements_opening opening, same, getLast?_cons_or]
  | other prev? t front opening notStart ih =>
      have notStart' (back' : List Token) :
          starts prev? t (front ++ o :: back').head? = false := by
        cases front with
        | cons first front => exact notStart
        | nil =>
            by_contra start
            have start' : starts prev? t ([] ++ [o]).head? = true := by
              simpa using start
            obtain ⟨s, mem, inside⟩ := exists_running start' (by simp) back
            exact clear s mem inside
      rw [List.cons_append, statements_other opening (notStart' back)] at clear
      obtain ⟨depth', earlier, same⟩ := ih clear
      refine ⟨depth', earlier, fun back' => ?_⟩
      rw [List.cons_append, statements_other opening (notStart' back'), same,
        getLast?_cons_or]
  | unfinished prev? t u start before =>
      obtain ⟨s, mem, inside⟩ :=
        exists_running (starts_append start [o]) before back
      exact absurd inside (clear s mem)
  | sourced prev? t u source tail start before string ih =>
      have shape (back : List Token) :
          t :: (u ++ source :: tail) ++ o :: back =
            t :: (u ++ source :: (tail ++ o :: back)) := by
        simp
      rw [shape, statements_sourced start before string] at clear
      obtain ⟨depth', earlier, same⟩ := ih fun s mem =>
        clear s (List.mem_cons_of_mem _ mem)
      refine ⟨depth', ⟨t :: (u ++ [source]),
        (tail.head?.or (some o)).filter (·.text == [';'])⟩ ::
          earlier, fun back' => ?_⟩
      rw [shape, statements_sourced start before string, same, List.head?_append,
        List.head?_cons, getLast?_behind]
      rfl

/-- What a group holds has no influence on the statements, unless one of them runs
into the group. -/
theorem statements_replace {o c : Token} {body body' : List Token}
    (pair : o.Pairs c) (inside : Balanced body) (inside' : Balanced body')
    {prev? : Option Token} {depth : Nat} {front back : List Token}
    (clear : ∀ s ∈ statements prev? depth (front ++ o :: (body ++ c :: back)),
      o ∉ s.tokens) :
    statements prev? depth (front ++ o :: (body' ++ c :: back)) =
      statements prev? depth (front ++ o :: (body ++ c :: back)) := by
  obtain ⟨depth', earlier, same⟩ := exists_of_clear clear
  rw [same, same, statements_group pair inside, statements_group pair inside']

theorem statements_congr {prev? prev?' : Option Token} (ts : List Token)
    (depth : Nat) (noDot : prev?.any (·.text == ['.']) = false)
    (noDot' : prev?'.any (·.text == ['.']) = false) :
    statements prev? depth ts = statements prev?' depth ts := by
  cases ts with
  | nil => rw [statements_nil, statements_nil]
  | cons t ts =>
      cases depth with
      | succ depth => rw [statements_inside, statements_inside]
      | zero =>
          have same (next? : Option Token) : starts prev? t next? =
              starts prev?' t next? := by
            simp [starts, noDot, noDot']
          rw [statements, statements]
          simp only [same]

end Showcase.Registry

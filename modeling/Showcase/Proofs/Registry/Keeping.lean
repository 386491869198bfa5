import Showcase.Proofs.Registry.Chunks
import Showcase.Proofs.Registry.Search
import Showcase.Proofs.Registry.Statements

/-!
# Changes that keep tokens

Where tokens stand, and what stands between the quotes of a literal, has no
influence on the structure that is found in them: a change that only moves
tokens and rewrites literals (`Keeps`) commutes with every walk over a token
list.
-/

namespace Showcase.Registry

/-- A change of tokens after which only their places and what literals hold may
be other. -/
structure Keeps (f : Token → Token) : Prop where
  kind (t : Token) : (f t).kind = t.kind
  first (t : Token) : (f t).first = t.first
  rest (t : Token) (plain : t.kind = .string → isQuote t.first = false) :
  (f t).rest = t.rest

def Chunk.map (f : Token → Token) (chunk : Chunk) : Chunk :=
  ⟨chunk.tokens.map f, chunk.comma?.map f⟩

def Statement.map (f : Token → Token) (statement : Statement) : Statement :=
  ⟨statement.tokens.map f, statement.semicolon?.map f⟩

variable {f : Token → Token}

namespace Keeps

theorem closer? (h : Keeps f) (t : Token) : (f t).closer? = t.closer? := by
  rw [Token.closer?, Token.closer?, h.kind, h.first]

theorem closes (h : Keeps f) (t : Token) : (f t).closes = t.closes := by
  rw [Token.closes, Token.closes, h.kind, h.first]

theorem isPunctIn (h : Keeps f) (t : Token) (cs : List Char) :
    (f t).isPunctIn cs = t.isPunctIn cs := by
  rw [Token.isPunctIn, Token.isPunctIn, h.kind, h.first]

theorem await (h : Keeps f) (t : Token) (stack : List Char) :
    (f t).await stack = t.await stack := by
  unfold Token.await
  rw [h.closer?, h.closes, h.first]

theorem text (h : Keeps f) {t : Token} (notString : t.kind ≠ .string) :
    (f t).text = t.text := by
  rw [Token.text, Token.text, h.first, h.rest t fun string =>
    absurd string notString]

theorem text_eq_iff (h : Keeps f) (t : Token) (text : Text)
    (unquoted : text.head?.any isQuote = false) :
    (f t).text = text ↔ t.text = text := by
  by_cases quoted : isQuote t.first = true
  · have differs {t' : Token} (same : t'.first = t.first) : t'.text ≠ text := by
      rintro rfl
      simp [Token.text, same, quoted] at unquoted
    exact iff_of_false (differs (h.first t)) (differs rfl)
  · rw [Token.text, Token.text, h.first, h.rest t fun _ => by simpa using quoted]

private theorem text_beq (h : Keeps f) (t : Token) (text : Text)
    (unquoted : text.head?.any isQuote = false) :
    ((f t).text == text) = (t.text == text) := by
  rw [Bool.eq_iff_iff, beq_iff_eq, beq_iff_eq, h.text_eq_iff t text unquoted]

end Keeps

/-! ## Brackets -/

private theorem awaited_map (keeps : Keeps f) (stack : List Char)
    (ts : List Token) :
    awaited stack (ts.map f) = awaited stack ts := by
  induction ts generalizing stack with
  | nil => rfl
  | cons t ts ih =>
      simp only [List.map_cons, awaited, keeps.await]
      congr 1
      funext stack
      exact ih stack

theorem balanced_map (keeps : Keeps f) {ts : List Token} :
    Balanced (ts.map f) ↔ Balanced ts := by
  rw [balanced_iff, balanced_iff, awaited_map keeps]

theorem seek_map (keeps : Keeps f) (stops : List Char) (depth : Nat)
    (ts : List Token) :
    seek stops depth (ts.map f) = (seek stops depth ts).map f := by
  induction ts generalizing depth with
  | nil => cases depth <;> rfl
  | cons t ts ih =>
      cases depth with
      | zero =>
          rw [List.map_cons, seek, seek, keeps.isPunctIn, keeps.closer?, ih,
            apply_ite (List.map f), List.map_cons]
      | succ depth =>
          rw [List.map_cons, seek, seek, keeps.closer?, keeps.closes, ih]

/-! ## Chunks -/

theorem chunksOf_map (keeps : Keeps f) (body : List Token) :
    chunksOf (body.map f) = (chunksOf body).map (Chunk.map f) := by
  induction len : body.length using Nat.strongRecOn generalizing body with
  | _ n ih =>
    subst len
    cases found : seek [','] 0 body with
    | nil =>
        have found' : seek [','] 0 (body.map f) = [] := by
          rw [seek_map keeps, found, List.map_nil]
        by_cases empty : body = []
        · rw [empty, List.map_nil, chunksOf_nil, List.map_nil]
        · rw [chunksOf_of_seek_eq_nil found empty,
            chunksOf_of_seek_eq_nil found' (by simpa using empty)]
          rfl
    | cons comma later =>
        have found' : seek [','] 0 (body.map f) = f comma :: later.map f := by
          rw [seek_map keeps, found, List.map_cons]
        have shorter := length_seek_le [','] 0 body
        rw [found, List.length_cons] at shorter
        rw [chunksOf_of_seek_eq_cons found, chunksOf_of_seek_eq_cons found',
          ih _ (by omega) later rfl]
        simp [Chunk.map, List.map_take]

theorem join_map (f : Token → Token) (chunks : List Chunk) :
    join (chunks.map (Chunk.map f)) = (join chunks).map f := by
  induction chunks with
  | nil => rfl
  | cons chunk chunks ih =>
      rw [List.map_cons, join_cons, join_cons, List.map_append, ih]
      cases comma : chunk.comma? <;> simp [Chunk.all, Chunk.map, comma]

theorem Cut.map {f : Token → Token} (keeps : Keeps f) {chunks : List Chunk}
    (cut : Cut chunks) :
    Cut (chunks.map (Chunk.map f)) := by
  have unbroken {ts : List Token} (h : Unbroken ts) : Unbroken (ts.map f) :=
    ⟨(balanced_map keeps).2 h.1, by rw [seek_map keeps, h.2, List.map_nil]⟩
  induction cut with
  | nil => exact .nil
  | last h some => exact .last (unbroken h) (by simpa using some)
  | more h isComma _ ih =>
      refine .more (unbroken h) ?_ ih
      rwa [← Token.isPunctIn_comma, keeps.isPunctIn, Token.isPunctIn_comma]

theorem groupBody?_map (keeps : Keeps f) (piece : List Token) :
    groupBody? (piece.map f) = (groupBody? piece).map (List.map f) := by
  cases piece with
  | nil => rfl
  | cons o rest =>
      rw [List.map_cons, groupBody?, groupBody?, ← List.map_dropLast,
        awaited_map keeps, keeps.kind, apply_ite (Option.map (List.map f))]
      simp only [keeps.text_eq_iff o ['{'] (by decide), ne_eq, List.map_eq_nil_iff]
      rfl

/-! ## The list -/

theorem declared_map (keeps : Keeps f) (listName : Text) (prev? : Option Token)
    (t : Token) :
    declared listName (prev?.map f) (f t) = declared listName prev? t := by
  have declarer (p : Token) : isDeclarer (f p) = isDeclarer p := by
    rw [isDeclarer, isDeclarer, keeps.text_beq p _ (by decide),
      keeps.text_beq p _ (by decide), keeps.text_beq p _ (by decide)]
  have before : (prev?.map f).any isDeclarer = prev?.any isDeclarer := by
    cases prev? <;> simp [declarer]
  rw [declared, declared, before, keeps.kind]
  by_cases named : t.kind = .name
  · rw [keeps.text (by simp [named])]
  · have other : (t.kind == .name) = false := beq_eq_false_iff_ne.2 named
    rw [other, Bool.false_and, Bool.false_and, Bool.false_and, Bool.false_and]

theorem assignmentOf_map (keeps : Keeps f) (ts : List Token) :
    assignmentOf (ts.map f) = (assignmentOf ts).map f := by
  induction len : ts.length using Nat.strongRecOn generalizing ts with
  | _ n ih =>
    subst len
    have equals (t : Token) : (f t).text = ['='] ↔ t.text = ['='] :=
      keeps.text_eq_iff t _ (by decide)
    have greater (t : Token) : (f t).text = ['>'] ↔ t.text = ['>'] :=
      keeps.text_eq_iff t _ (by decide)
    by_cases arrow : ∃ e g rest, seek ['=', ';'] 0 ts = e :: g :: rest ∧
        e.text = ['='] ∧ g.text = ['>']
    · obtain ⟨e, g, rest, found, isEquals, isGreater⟩ := arrow
      have shorter := length_seek_le ['=', ';'] 0 ts
      rw [found] at shorter
      simp only [List.length_cons] at shorter
      have found' : seek ['=', ';'] 0 (ts.map f) = f e :: f g :: rest.map f := by
        rw [seek_map keeps, found, List.map_cons, List.map_cons]
      rw [assignmentOf_of_arrow found ⟨isEquals, isGreater⟩,
        assignmentOf_of_arrow found'
        ⟨(equals e).2 isEquals, (greater g).2 isGreater⟩]
      exact ih _ (by omega) rest rfl
    · rw [assignmentOf_of_no_arrow (fun e g rest found isArrow =>
        arrow ⟨e, g, rest, found, isArrow⟩),
        assignmentOf_of_no_arrow, seek_map keeps]
      intro e g rest found isArrow
      rw [seek_map keeps] at found
      obtain ⟨e', ts', shape, rfl, tail⟩ := List.map_eq_cons_iff.1 found
      obtain ⟨g', rest', rfl, rfl, -⟩ := List.map_eq_cons_iff.1 tail
      exact arrow ⟨e', g', rest', shape, (equals e').1 isArrow.1,
        (greater g').1 isArrow.2⟩

theorem opened?_map (keeps : Keeps f) (ts : List Token) :
    opened? (ts.map f) = (opened? ts).map (List.map f) := by
  match ts with
  | [] => rfl
  | [e] => rfl
  | e :: o :: rest =>
      rw [List.map_cons, List.map_cons, opened?, opened?,
        apply_ite (Option.map (List.map f))]
      simp only [keeps.text_eq_iff e ['='] (by decide),
        keeps.text_eq_iff o ['['] (by decide)]
      rfl

theorem listFrom?_map (keeps : Keeps f) (listName : Text) (prev? : Option Token)
    (ts : List Token) :
    listFrom? listName (prev?.map f) (ts.map f) =
      (listFrom? listName prev? ts).map (List.map f) := by
  induction ts generalizing prev? with
  | nil => rfl
  | cons t ts ih =>
      have later := ih (some t)
      rw [Option.map_some] at later
      rw [List.map_cons, listFrom?, listFrom?, declared_map keeps,
        assignmentOf_map keeps, opened?_map keeps, later]
      cases declared listName prev? t with
      | true => cases opened? (assignmentOf ts) <;> rfl
      | false => rfl

/-! ## Import statements -/

theorem starts_map (keeps : Keeps f) (prev? : Option Token) (t : Token)
    (next? : Option Token) :
    starts (prev?.map f) (f t) (next?.map f) = starts prev? t next? := by
  have dot (p : Token) : ((f p).text == ['.']) = (p.text == ['.']) :=
    keeps.text_beq p _ (by decide)
  have paren (p : Token) : ((f p).text == ['(']) = (p.text == ['(']) :=
    keeps.text_beq p _ (by decide)
  have word : ((f t).text == "import".toList) = (t.text == "import".toList) :=
    keeps.text_beq t _ (by decide)
  rw [starts, starts, keeps.kind, word]
  cases prev? <;> cases next? <;> simp [dot, paren, bne]

theorem statements_map (keeps : Keeps f) (prev? : Option Token) (depth : Nat)
    (ts : List Token) :
    statements (prev?.map f) depth (ts.map f) =
      (statements prev? depth ts).map (Statement.map f) := by
  have kinds {u : List Token} (before : ∀ t ∈ u, t.kind ≠ .string) :
      ∀ t ∈ u.map f, t.kind ≠ .string := by
    intro t' mem
    obtain ⟨t, inside, rfl⟩ := List.mem_map.1 mem
    rw [keeps.kind]
    exact before t inside
  induction prev?, depth, ts using statements_induction with
  | nil => simp [statements_nil]
  | inside prev? depth t ts ih =>
      rw [List.map_cons, statements_inside, statements_inside,
        keeps.closer?, keeps.closes]
      exact ih
  | opening prev? t ts closer opening ih =>
      rw [List.map_cons, statements_opening opening,
        statements_opening ((keeps.closer? t).trans opening)]
      exact ih
  | other prev? t ts opening notStart ih =>
      rw [List.map_cons, statements_other opening notStart,
        statements_other ((keeps.closer? t).trans opening)
          (by rw [List.head?_map, starts_map keeps, notStart])]
      exact ih
  | unfinished prev? t u start before =>
      have start' : starts (prev?.map f) (f t) (u.map f).head? = true := by
        rw [List.head?_map, starts_map keeps, start]
      rw [List.map_cons, statements_unfinished start before,
        statements_unfinished start' (kinds before)]
      rfl
  | sourced prev? t u source tail start before string ih =>
      have start' : starts (prev?.map f) (f t) (u.map f ++ [f source]).head? =
          true := by
        rw [← List.map_singleton, ← List.map_append, List.head?_map,
          starts_map keeps, start]
      have semicolon : (tail.map f).head?.filter (·.text == [';']) =
          (tail.head?.filter (·.text == [';'])).map f := by
        cases tail with
        | nil => rfl
        | cons s tail =>
            simp [Option.filter, keeps.text_beq s [';'] (by decide),
              apply_ite (Option.map f)]
      rw [Option.map_some] at ih
      rw [List.map_cons, List.map_append, List.map_cons,
        statements_sourced start before string,
        statements_sourced start' (kinds before)
          ((keeps.kind source).trans string), semicolon, ih,
        List.map_cons, Statement.map, List.map_cons, List.map_append,
        List.map_singleton]

theorem clauseOf_map (keeps : Keeps f) (ts : List Token) :
    clauseOf (ts.map f) = (clauseOf ts).map f := by
  match ts with
  | [] => rfl
  | [t] => rfl
  | modifier :: t :: ts =>
      rw [List.map_cons, List.map_cons, clauseOf, clauseOf, keeps.kind,
        apply_ite (List.map f)]
      simp only [keeps.text_eq_iff modifier "type".toList (by decide), ne_eq,
        keeps.text_eq_iff t "from".toList (by decide)]
      rfl

theorem defaultOf?_map (keeps : Keeps f) (ts : List Token) :
    defaultOf? (ts.map f) = defaultOf? ts := by
  match ts with
  | [] => rfl
  | [t] => rfl
  | t :: next :: ts =>
      rw [List.map_cons, List.map_cons, defaultOf?, defaultOf?, keeps.kind]
      simp only [keeps.text_eq_iff next "from".toList (by decide),
        keeps.text_eq_iff next [','] (by decide)]
      by_cases named : t.kind = .name
      · rw [keeps.text (by simp [named])]
      · simp [named]

theorem namesOf_map (keeps : Keeps f) (ts : List Token) :
    namesOf (ts.map f) = namesOf ts := by
  have binds (t : Token) :
      ((f t).kind = .name ∧ Bracketed.isClauseWord (f t).text = false) ↔
        t.kind = .name ∧ Bracketed.isClauseWord t.text = false := by
    rw [keeps.kind]
    refine and_congr_right fun named => ?_
    rw [keeps.text (by simp [named])]
  have word {t : Token}
      (named : t.kind = .name ∧ Bracketed.isClauseWord t.text = false) :
      (f t).text = t.text := keeps.text (by simp [named.1])
  have isAs (t : Token) : (f t).text = "as".toList ↔ t.text = "as".toList :=
    keeps.text_eq_iff t _ (by decide)
  fun_induction namesOf ts with
  | case1 => rfl
  | case2 t named =>
      rw [List.map_singleton, namesOf, if_pos ((binds t).2 named), word named]
  | case3 t notNamed =>
      rw [List.map_singleton, namesOf, if_neg (mt (binds t).1 notNamed)]
  | case4 t next ts named isAs' ih =>
      rw [List.map_cons, List.map_cons, namesOf, if_pos ((binds t).2 named),
        if_pos ((isAs next).2 isAs'), ih]
  | case5 t next ts named notAs ih =>
      rw [List.map_cons] at ih
      rw [List.map_cons, List.map_cons, namesOf, if_pos ((binds t).2 named),
        if_neg (mt (isAs next).1 notAs), ih, word named]
  | case6 t next ts notNamed ih =>
      rw [List.map_cons] at ih
      rw [List.map_cons, List.map_cons, namesOf, if_neg (mt (binds t).1 notNamed),
        ih]

end Showcase.Registry

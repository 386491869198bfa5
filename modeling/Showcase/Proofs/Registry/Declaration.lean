import Showcase.Proofs.Registry.Bare
import Showcase.Proofs.Registry.Imports

/-!
# The declaration of the list

A registry text is divided at the declaration of its list (`Declaration`).  The
list stays the declared one when it gets other elements, and when an import
statement apart from it goes.
-/

namespace Showcase.Registry

/-! ## Statements -/

/-- A statement's tokens with its semicolon. -/
def Statement.all (statement : Statement) : List Token :=
  statement.tokens ++ statement.semicolon?.toList

theorem Token.Genuine.text_ne_semicolon {t : Token} (genuine : t.Genuine)
    (word : t.kind = .name) :
    t.text ≠ [';'] := by
  intro semicolon
  rw [Token.Genuine, word, semicolon] at genuine
  cases genuine with
  | name named => exact absurd (named ';' List.mem_cons_self) (by decide)

private theorem Statement.balanced_all {s : Statement}
    (balanced : Balanced s.tokens)
    (semicolon : ∀ c ∈ s.semicolon?, c.text = [';']) : Balanced s.all := by
  refine balanced.append ?_
  cases final : s.semicolon? with
  | none => exact .nil
  | some c =>
      obtain ⟨opening, closing⟩ := Token.plain_of_semicolon (semicolon c final)
      exact balanced_singleton opening closing

/-- Neither a declaration nor a comment goes on behind an import statement. -/
theorem Statement.last_all {s : Statement} {source : Token}
    (last : s.tokens.getLast? = some source) (literal : source.kind = .string)
    (genuine : source.Genuine)
    (semicolon : ∀ c ∈ s.semicolon?, c.text = [';']) :
    ∃ c, s.all.getLast? = some c ∧ isDeclarer c = false ∧ c.text ≠ ['/'] := by
  cases final : s.semicolon? with
  | none =>
      have other (text : Text) (unquoted : text.head?.any isQuote = false) :
          source.text ≠ text :=
        Token.text_ne_of_string genuine literal unquoted
      refine ⟨source, by simp [all, final, last], ?_, other _ rfl⟩
      simpa [isDeclarer] using ⟨⟨other _ rfl, other _ rfl⟩, other _ rfl⟩
  | some c =>
      exact ⟨c, by simp [all, final], by simp [isDeclarer, semicolon c final]⟩

theorem Statement.statements_all {s : Statement} {prev? : Option Token}
    {t source : Token} {u : List Token}
    (shape : s.tokens = t :: (u ++ [source]))
    (start : starts prev? t (u ++ [source]).head? = true)
    (before : ∀ x ∈ u, x.kind ≠ .string) (string : source.kind = .string)
    (semicolon : ∀ c ∈ s.semicolon?, c.text = [';']) (rest : List Token) :
    statements prev? 0 (s.all ++ rest) =
      ⟨s.tokens, s.semicolon?.or (rest.head?.filter (·.text == [';']))⟩ ::
        statements (some (s.semicolon?.getD source)) 0 rest := by
  have split :
      s.all ++ rest = t :: (u ++ source :: (s.semicolon?.toList ++ rest)) := by
    simp [all, shape]
  rw [split, statements_sourced start before string, shape]
  cases behind : s.semicolon? with
  | none => rfl
  | some c =>
      have isSemicolon := semicolon c behind
      simp [isSemicolon, statements_semicolon isSemicolon]

private theorem exists_semicolon (ts : List Token) :
    ∃ back, ts = (ts.head?.filter (·.text == [';'])).toList ++ back ∧
      (ts.head?.filter (·.text == [';']) = none ∧ ts = back ∨
        ∃ s, s.text = [';'] ∧ ts.head?.filter (·.text == [';']) = some s ∧
        ts = s :: back) := by
  cases ts with
  | nil => exact ⟨[], rfl, .inl ⟨rfl, rfl⟩⟩
  | cons s ts =>
      by_cases semicolon : s.text = [';']
      · have found : (s :: ts).head?.filter (·.text == [';']) = some s := by
          simp [semicolon]
        exact ⟨ts, by rw [found]; rfl, .inr ⟨s, semicolon, found, rfl⟩⟩
      · have none' : (s :: ts).head?.filter (·.text == [';']) = none := by
          simp [semicolon]
        exact ⟨s :: ts, by rw [none']; rfl, .inl ⟨none', rfl⟩⟩

theorem statements_sublist (prev? : Option Token) (depth : Nat) (ts : List Token) :
    ((statements prev? depth ts).flatMap Statement.all).Sublist ts := by
  induction len : ts.length using Nat.strongRecOn generalizing prev? depth ts with
  | _ n ih =>
    subst len
    cases split : statements prev? depth ts with
    | nil => exact List.nil_sublist ts
    | cons s later =>
        have first : statements prev? depth ts = [] ++ s :: later := split
        obtain ⟨front, t, u, behind, rfl, shape, -, semicolon, rfl, -⟩ :=
          exists_of_statements first
        obtain ⟨back, parts, cases⟩ := exists_semicolon behind
        have rest :
            ((statements (t :: u).getLast? 0 behind).flatMap
              Statement.all).Sublist back := by
          rcases cases with ⟨-, rfl⟩ | ⟨c, isSemicolon, -, rfl⟩
          · exact ih _ (by simp; omega) _ _ _ rfl
          · rw [statements_semicolon isSemicolon]
            exact ih _ (by simp; omega) _ _ _ rfl
        rw [List.flatMap_cons, Statement.all, shape, semicolon, List.append_assoc,
          List.append_assoc]
        refine List.sublist_append_of_sublist_right
          (List.Sublist.append (.refl _) ?_)
        conv_rhs => rw [parts]
        exact List.Sublist.append (.refl _) rest

theorem exists_without {prev? : Option Token} {ts : List Token}
    {earlier later : List Statement} {s : Statement}
    (h : statements prev? 0 ts = earlier ++ s :: later)
    (genuine : ∀ t ∈ ts, t.Genuine)
    (literal : ∀ t ∈ s.tokens.getLast?, t.kind = .string) :
    ∃ front t u back, ts = front ++ s.all ++ back ∧ s.tokens = t :: u ∧
      t.first = 'i' ∧
      (∀ c ∈ s.semicolon?, c.text = [';']) ∧
      (statements prev? 0 (front ++ back)).map Statement.tokens =
        (earlier ++ later).map Statement.tokens := by
  obtain ⟨front, t, u, behind, rfl, shape, start, semicolon, rfl, others⟩ :=
    exists_of_statements h
  obtain ⟨back, split, cases⟩ := exists_semicolon behind
  have word : t.first = 'i' := (List.cons.inj (text_of_starts start)).1
  have noDot : (front.getLast?.or prev?).any (·.text == ['.']) = false := by
    simp only [starts, Bool.and_eq_true, Bool.not_eq_true'] at start
    exact start.1.2
  rw [shape] at literal
  refine ⟨front, t, u, back, ?_, shape, word, ?_, ?_⟩
  · rw [Statement.all, shape, semicolon, List.append_assoc, List.append_assoc,
      List.append_assoc, ← split]
  · rintro c mem
    rw [semicolon] at mem
    simpa using (Option.filter_eq_some_iff.1 mem).2
  · rw [others back, List.map_append, List.append_right_inj]
    congr 1
    rcases cases with ⟨-, rfl⟩ | ⟨s, isSemicolon, -, rfl⟩
    · refine statements_congr behind 0 noDot ?_
      cases last : (t :: u).getLast? with
      | none => rfl
      | some source =>
          have mem : source ∈ t :: u := List.mem_of_getLast? last
          have notDot : source.text ≠ ['.'] :=
            Token.text_ne_of_string (genuine source (by simp at mem ⊢; tauto))
            (literal source last) rfl
          simpa using notDot
    · rw [statements_semicolon isSemicolon]
      exact statements_congr back 0 noDot (by simp [isSemicolon])

private theorem exists_side {α : Type} {a s b l m r : List α}
    (same : a ++ s ++ b = l ++ m ++ r) (apart : ∀ x ∈ s, x ∉ m) (some : s ≠ [])
    (some' : m ≠ []) :
    (∃ x, l = a ++ s ++ x ∧ b = x ++ m ++ r) ∨ ∃ x, r = x ++ s ++ b ∧
      a = l ++ m ++ x := by
  obtain ⟨s₀, s, rfl⟩ := List.exists_cons_of_ne_nil some
  obtain ⟨m₀, m, rfl⟩ := List.exists_cons_of_ne_nil some'
  rw [List.append_assoc l] at same
  rcases List.append_eq_append_iff.1 same with ⟨x, rfl, rfl⟩ | ⟨x, across, rest⟩
  · exact .inl ⟨x, rfl, by simp⟩
  rcases List.append_eq_append_iff.1 across with ⟨y, rfl, rest'⟩ | ⟨y, rfl, rfl⟩
  · cases x with
    | nil => exact .inl ⟨[], by rw [rest']; simp, by simpa using rest.symm⟩
    | cons x₀ x =>
        obtain ⟨rfl, -⟩ := List.cons.inj rest
        exact absurd (by simp) (apart m₀ (by rw [rest']; simp))
  · rw [List.append_assoc] at rest
    rcases List.append_eq_append_iff.1 rest with ⟨z, rfl, rfl⟩ | ⟨z, shape, rest'⟩
    · exact .inr ⟨z, by simp, by simp⟩
    · cases z with
      | nil => exact .inr ⟨[], by simpa using rest'.symm, by simpa using shape.symm⟩
      | cons z₀ z =>
          obtain ⟨rfl, -⟩ := List.cons.inj rest'
          exact absurd (by rw [shape]; simp) (apart s₀ (by simp))

/-! ## Declarations -/

/-- The tokens of a registry text, divided at the list and the name it is
declared with. -/
structure Declaration where
  ahead : List Token
  name : Token
  between : List Token
  opener : Token
  chunks : List Chunk
  closer : Token
  back : List Token

namespace Declaration

def front (d : Declaration) : List Token := d.ahead ++ d.name :: d.between

/-- The tokens from the name of the list up to its end. -/
def body (d : Declaration) : List Token :=
  d.name :: (d.between ++ d.opener :: (join d.chunks ++ [d.closer]))

def tokens (d : Declaration) : List Token :=
  d.front ++ d.opener :: (join d.chunks ++ d.closer :: d.back)

theorem tokens_eq (d : Declaration) : d.tokens = d.ahead ++ d.body ++ d.back := by
  simp [tokens, front, body]

/-- The tokens of every text that is read can be divided so. -/
theorem exists_of_scan {text listName : Text} {doc : Document}
    (scanned : scan text listName = .ok doc) :
    ∃ d : Declaration, tokenize text = .ok d.tokens ∧
      Located listName d.front d.opener d.chunks d.closer d.back := by
  obtain ⟨front, opener, chunks, closer, back, tokenized, located⟩ :=
    exists_located scanned
  obtain ⟨ahead, name, rfl⟩ :=
    List.eq_nil_or_concat' front |>.resolve_left located.front_ne_nil
  exact ⟨⟨ahead, name, [], opener, chunks, closer, back⟩, tokenized, located⟩

theorem join_subset {d : Declaration} : join d.chunks ⊆ d.tokens := by
  intro t mem
  simp [tokens, mem]

theorem listSpan_of_scan {text listName : Text} {doc : Document}
    {d : Declaration}
    (located : Located listName d.front d.opener d.chunks d.closer d.back)
    (tokenized : tokenize text = .ok d.tokens)
    (scanned : scan text listName = .ok doc) :
    doc.listSpan = ⟨d.opener.start, d.closer.stop⟩ := by
  rw [scan_eq tokenized located] at scanned
  obtain ⟨_, -, rest⟩ := bind_eq_ok_iff.1 scanned
  obtain ⟨_, -, rfl⟩ := map_eq_ok_iff.1 rest
  rfl

theorem exists_statement_of_scan {text listName : Text} {doc : Document}
    {d : Declaration} {statement : Import}
    (located : Located listName d.front d.opener d.chunks d.closer d.back)
    (tokenized : tokenize text = .ok d.tokens)
    (scanned : scan text listName = .ok doc) (mem : statement ∈ doc.imports) :
    ∃ s front t u back, importOf s = .ok statement ∧
      d.tokens = front ++ s.all ++ back ∧
      s.tokens = t :: u ∧ t.first = 'i' := by
  rw [scan_eq tokenized located] at scanned
  obtain ⟨_, -, rest⟩ := bind_eq_ok_iff.1 scanned
  obtain ⟨imports, found, rfl⟩ := map_eq_ok_iff.1 rest
  obtain ⟨is, is', rfl⟩ := List.append_of_mem mem
  obtain ⟨earlier, s, later, shape, -, read, -⟩ := exists_statement found
  obtain ⟨-, source, -, last, literal, -, -⟩ := importOf_span read
  have literal' : ∀ t ∈ s.tokens.getLast?, t.kind = .string := by
    rw [last]
    rintro _ ⟨⟩
    exact literal
  obtain ⟨front, t, u, back, split, first, word, -⟩ :=
    exists_without shape (tokenize_eq_ok_iff.1 tokenized).genuine literal'
  exact ⟨s, front, t, u, back, read, split, first, word⟩

theorem exists_ahead {d : Declaration} {front taken back : List Token}
    {last : Token} (row : d.tokens.Pairwise fun t t' => t.stop ≤ t'.start)
    (split : d.tokens = front ++ taken ++ back)
    (final : taken.getLast? = some last) (before : last.stop ≤ d.opener.start) :
    ∃ x, d.front = front ++ taken ++ x ∧
      back = x ++ d.opener :: (join d.chunks ++ d.closer :: d.back) := by
  have shape := split
  rw [tokens] at shape
  rcases List.append_eq_append_iff.1 shape with ⟨x, within, rest⟩ |
    ⟨x, ahead, behind⟩
  · cases x with
    | nil => exact ⟨[], by simpa using within.symm, by simpa using rest.symm⟩
    | cons o x =>
        -- the bracket would stand among the tokens, so before the end of the
        -- last one
        obtain ⟨rfl, -⟩ := List.cons.inj rest
        rw [split, within, List.append_assoc] at row
        have final' : (d.opener :: x).getLast? = some last := by
          have := congrArg List.getLast? within
          rwa [List.getLast?_append, final,
            List.getLast?_append_of_ne_nil _ (by simp), Option.some_or,
            eq_comm] at this
        have row' := (List.pairwise_append.1 (List.pairwise_append.1 row).2.1).1
        have := (between_of_pairwise row' rfl final' List.mem_cons_self).2
        have := d.opener.start_lt_stop
        omega
  · exact ⟨x, ahead, behind⟩

/-- The first declaration of the list's name is that of the list. -/
structure Opens (listName : Text) (d : Declaration) : Prop where
  balanced : Balanced d.tokens
  pair : d.opener.Pairs d.closer
  cut : Cut d.chunks
  undeclared : Undeclared listName none d.ahead
  declared : declared listName d.ahead.getLast? d.name = true
  opened : opened? (assignmentOf (d.between ++ d.opener ::
      (join d.chunks ++ d.closer :: d.back))) =
    some (d.opener :: (join d.chunks ++ d.closer :: d.back))

namespace Opens

variable {listName : Text} {d : Declaration}

theorem located (h : d.Opens listName) :
    Located listName d.front d.opener d.chunks d.closer d.back := by
  refine ⟨h.balanced, h.pair, h.cut, ?_⟩
  rw [front, List.append_assoc, List.cons_append, listFrom?_append h.undeclared,
    listFrom?, Option.or_none, if_pos h.declared, h.opened]
  rfl

theorem name_kind (h : d.Opens listName) : d.name.kind = .name := by
  have declared := h.declared
  simp only [Registry.declared, Bool.and_eq_true, beq_iff_eq] at declared
  exact declared.1.1

theorem replace (h : d.Opens listName) {chunks : List Chunk} (cut : Cut chunks) :
    Opens listName { d with chunks := chunks } :=
  ⟨(h.located.replace cut).balanced, h.pair, cut, h.undeclared, h.declared,
    opened?_replace h.pair h.cut.balanced cut.balanced d.back h.opened⟩

/-- The list can do without balanced tokens ahead that end apart from its name. -/
private theorem dropAhead (h : d.Opens listName) {left removed right : List Token}
    (split : d.ahead = left ++ removed ++ right) (balanced : Balanced removed)
    (before : left.getLast?.any isDeclarer = false)
    (last : ∃ t, removed.getLast? = some t ∧ isDeclarer t = false) :
    Opens listName { d with ahead := left ++ right } := by
  obtain ⟨t, last, notDeclarer⟩ := last
  have undeclared := h.undeclared
  rw [split, undeclared_append, undeclared_append] at undeclared
  obtain ⟨⟨first, -⟩, second⟩ := undeclared
  have right' : right ≠ [] := by
    rintro rfl
    have := h.declared
    rw [split, List.append_nil, List.getLast?_append, last] at this
    simp [Registry.declared, notDeclarer] at this
  refine ⟨?_, h.pair, h.cut, ?_, ?_, h.opened⟩
  · have all := h.balanced
    rw [tokens_eq, split, List.append_assoc, List.append_assoc, List.append_assoc]
      at all
    rw [← List.append_assoc] at all
    have without := all.replace balanced .nil
    rw [tokens_eq]
    simpa [body] using without
  · rw [undeclared_append]
    refine ⟨first, second.congr ?_⟩
    simpa using before
  · have := h.declared
    rw [split] at this
    obtain ⟨right, final, rfl⟩ :=
      List.eq_nil_or_concat' right |>.resolve_left right'
    rw [← List.append_assoc, List.getLast?_concat] at this ⊢
    exact this

private theorem dropBack (h : d.Opens listName) {left removed right : List Token}
    (split : d.back = left ++ removed ++ right) (balanced : Balanced removed) :
    Opens listName { d with back := left ++ right } := by
  refine ⟨?_, h.pair, h.cut, h.undeclared, h.declared,
    opened?_replace h.pair h.cut.balanced h.cut.balanced _ h.opened⟩
  have all := h.balanced
  rw [tokens_eq, split, ← List.append_assoc, ← List.append_assoc] at all
  have without := all.replace balanced .nil
  rw [tokens_eq]
  simpa [body] using without

end Opens

/-- The list is declared as `Opens` says, every import statement is complete and
stands apart from the declaration, and no slash in front of what a removal takes
away could start a comment without it. -/
structure Orderly (listName : Text) (d : Declaration) : Prop where
  opens : d.Opens listName
  complete : ∀ s ∈ statements none 0 d.tokens, Balanced s.tokens
  apart : ∀ s ∈ statements none 0 d.tokens, ∀ t ∈ s.tokens, t ∉ d.body
  before : ∀ s ∈ statements none 0 d.tokens, ∀ front back,
    d.tokens = front ++ s.tokens ++ back →
    ∀ p ∈ front.getLast?, isDeclarer p = false ∧ p.text ≠ ['/']
  elements : ∀ chunk ∈ d.chunks, ∀ t ∈ chunk.tokens.getLast?, t.text ≠ ['/']

/-- Where an import statement stands, and the declaration without it. -/
structure Without (listName : Text) (d : Declaration) (s : Statement)
    (front back : List Token) (d' : Declaration) : Prop where
  tokens : d.tokens = front ++ s.all ++ back
  tokens' : d'.tokens = front ++ back
  opens : d'.Opens listName
  side : (∃ x, d.ahead = front ++ s.all ++ x ∧
    d' = { d with ahead := front ++ x }) ∨
    ∃ x, d.back = x ++ s.all ++ back ∧ d' = { d with back := x ++ back }

private theorem exists_statement_side {d : Declaration} {s : Statement}
    {front back : List Token} (split : d.tokens = front ++ s.all ++ back)
    (apart : ∀ t ∈ s.tokens, t ∉ d.body) (some : s.tokens ≠ [])
    (notName : ∀ c ∈ s.semicolon?, c ≠ d.name) :
    (∃ x, d.ahead = front ++ s.all ++ x ∧ back = x ++ d.body ++ d.back) ∨
      ∃ x, d.back = x ++ s.all ++ back ∧ front = d.ahead ++ d.body ++ x := by
  rw [Statement.all, ← List.append_assoc, List.append_assoc (front ++ s.tokens),
    tokens_eq] at split
  rcases exists_side split.symm apart some (by simp [body]) with
    ⟨x, ahead, rest⟩ | ⟨x, behind, before⟩
  · cases final : s.semicolon? with
    | none => exact .inl ⟨x, by simp [Statement.all, final, ahead],
        by simpa [final] using rest⟩
    | some c =>
        rw [final] at rest
        cases x with
        | nil => exact absurd (List.cons.inj rest).1 (notName c final)
        | cons x₀ x =>
            obtain ⟨rfl, rest'⟩ := List.cons.inj rest
            exact .inl ⟨x, by simp [Statement.all, final, ahead], rest'⟩
  · exact .inr ⟨x, by simp [Statement.all, behind], before⟩

theorem Orderly.exists_without {listName : Text} {d : Declaration}
    {earlier later : List Statement} {s : Statement} {source : Token}
    (h : d.Orderly listName)
    (found : statements none 0 d.tokens = earlier ++ s :: later)
    (genuine : ∀ t ∈ d.tokens, t.Genuine)
    (last : s.tokens.getLast? = some source) (literal : source.kind = .string) :
    ∃ front t u back d', s.tokens = t :: u ∧ t.first = 'i' ∧
      (∀ p ∈ front.getLast?, p.text ≠ ['/']) ∧ d.Without listName s front back d' ∧
      (statements none 0 d'.tokens).map Statement.tokens =
        (earlier ++ later).map Statement.tokens := by
  have mem : s ∈ statements none 0 d.tokens := by simp [found]
  have literal' : ∀ t ∈ s.tokens.getLast?, t.kind = .string := by
    rw [last]
    rintro _ ⟨⟩
    exact literal
  obtain ⟨front, t, u, back, split, shape, word, semicolon, others⟩ :=
    Registry.exists_without found genuine literal'
  have genuine' : source.Genuine := by
    refine genuine source ?_
    have := List.mem_of_getLast? last
    simp [split, Statement.all, this]
  have before := h.before s mem front (s.semicolon?.toList ++ back)
    (by rw [split]; simp [Statement.all])
  have balanced := Statement.balanced_all (h.complete s mem) semicolon
  obtain ⟨c, last, notDeclarer, -⟩ :=
    Statement.last_all last literal genuine' semicolon
  have named := (genuine d.name (by simp [tokens_eq, body])).text_ne_semicolon
    h.opens.name_kind
  have side := exists_statement_side split (h.apart s mem)
    (by simp [shape]) fun c isSemicolon same =>
    named (same ▸ semicolon c isSemicolon)
  rcases side with ⟨x, ahead, rfl⟩ | ⟨x, behind, rfl⟩
  · refine ⟨front, t, u, _, { d with ahead := front ++ x }, shape, word,
      fun p mem => (before p mem).2, ⟨split, ?_, ?_, .inl ⟨x, ahead, rfl⟩⟩, ?_⟩
    · simp [tokens_eq, body]
    · refine h.opens.dropAhead ahead balanced ?_ ⟨c, last, notDeclarer⟩
      cases prev : front.getLast? with
      | none => rfl
      | some p => exact (before p prev).1
    · rw [← others]
      simp [tokens_eq, body]
  · refine ⟨_, t, u, back, { d with back := x ++ back }, shape, word,
      fun p mem => (before p mem).2,
      ⟨split, ?_, h.opens.dropBack behind balanced, .inr ⟨x, behind, rfl⟩⟩, ?_⟩
    · simp [tokens_eq, body]
    · rw [← others]
      simp [tokens_eq, body]

end Declaration

end Showcase.Registry

import Showcase.Proofs.Registry.Layout

/-!
# Layouts without positions

Whole import statements in a row are read one by one whatever stands behind them
(`statements_whole`).  Hence a declaration that starts with such a row and has
no other import statement is a layout (`Arranged.layout`), and remains one
wherever its tokens stand (`Arranged.of_bare`), with other records
(`Arranged.replace`), and without one of its statements (`Arranged.without`).
-/

namespace Showcase.Registry

/-! ## Whole statements -/

/-- The word `import`, tokens without a literal among them, the source, and
perhaps a semicolon. -/
structure Statement.Whole (s : Statement) : Prop where
  shape : ∃ t u source, s.tokens = t :: (u ++ [source]) ∧
    starts none t (u ++ [source]).head? = true ∧ (∀ x ∈ u, x.kind ≠ .string) ∧
    source.kind = .string ∧ source.Genuine
  balanced : Balanced s.tokens
  semicolon : ∀ c ∈ s.semicolon?, c.text = [';']

private theorem starts_of_noDot {prev? next? : Option Token} {t : Token}
    (h : starts none t next? = true)
    (noDot : prev?.any (·.text == ['.']) = false) :
    starts prev? t next? = true := by
  unfold starts at h ⊢
  rw [noDot]
  exact h

private theorem starts_none {prev? next? : Option Token} {t : Token}
    (h : starts prev? t next? = true) :
    starts none t next? = true := by
  unfold starts at h ⊢
  simp only [Bool.and_eq_true] at h ⊢
  exact ⟨⟨h.1.1, rfl⟩, h.2⟩

private theorem statements_of_noDot {prev? : Option Token}
    (noDot : prev?.any (·.text == ['.']) = false) (ts : List Token) :
    statements prev? 0 ts = statements none 0 ts :=
  statements_congr ts 0 noDot rfl

namespace Statement.Whole

variable {s : Statement} {prev? : Option Token}

private theorem statements_eq (h : s.Whole)
    (noDot : prev?.any (·.text == ['.']) = false) (rest : List Token) :
    ∃ last?, last?.any (·.text == ['.']) = false ∧
      statements prev? 0 (s.all ++ rest) =
        ⟨s.tokens, s.semicolon?.or (rest.head?.filter (·.text == [';']))⟩ ::
          statements last? 0 rest := by
  obtain ⟨t, u, source, shape, start, before, literal, genuine⟩ := h.shape
  refine ⟨_, ?_, Statement.statements_all shape (starts_of_noDot start noDot)
    before literal h.semicolon rest⟩
  cases behind : s.semicolon? with
  | none =>
      have other : source.text ≠ ['.'] :=
        Token.text_ne_of_string genuine literal rfl
      simpa using other
  | some c => simp [h.semicolon c behind]

theorem text_ne (h : s.Whole) : ∃ t rest, s.all = t :: rest ∧ t.text ≠ [';'] := by
  obtain ⟨t, u, source, shape, start, -⟩ := h.shape
  refine ⟨t, u ++ [source] ++ s.semicolon?.toList, by simp [Statement.all, shape],
    ?_⟩
  intro semicolon
  simp [starts, semicolon] at start

end Statement.Whole

/-- Whole statements in a row are read one by one. -/
private theorem statements_whole {groups : List Statement}
    (whole : ∀ s ∈ groups, s.Whole) {prev? : Option Token}
    (noDot : prev?.any (·.text == ['.']) = false) (rest : List Token) :
    (statements prev? 0 (groups.flatMap Statement.all ++ rest)).map
      Statement.tokens =
        groups.map Statement.tokens ++
          (statements none 0 rest).map Statement.tokens := by
  induction groups generalizing prev? with
  | nil =>
      rw [List.flatMap_nil, List.nil_append, statements_of_noDot noDot]
      rfl
  | cons s groups ih =>
      obtain ⟨last?, noDot', read⟩ :=
        (whole s List.mem_cons_self).statements_eq noDot
        (groups.flatMap Statement.all ++ rest)
      rw [List.flatMap_cons, List.append_assoc, read, List.map_cons,
        ih (fun s mem => whole s (List.mem_cons_of_mem _ mem)) noDot']
      rfl

/-- The statements that are read stand at the start, one behind the other; the
last takes the semicolon behind it. -/
private theorem exists_middle {groups : List Statement}
    (whole : ∀ s ∈ groups, s.Whole) {prev? : Option Token}
    (noDot : prev?.any (·.text == ['.']) = false) {middle tail : List Token}
    (notSemicolon : ∀ t ∈ tail.head?, t.text ≠ [';'])
    (quiet : statements none 0 (middle ++ tail) = []) :
    ∃ middle', groups.flatMap Statement.all ++ middle =
      (statements prev? 0 (groups.flatMap Statement.all ++
        (middle ++ tail))).flatMap
        Statement.all ++ middle' := by
  induction groups generalizing prev? with
  | nil =>
      refine ⟨middle, ?_⟩
      rw [List.flatMap_nil, List.nil_append, List.nil_append,
        statements_of_noDot noDot, quiet]
      rfl
  | cons s groups ih =>
      have first := whole s List.mem_cons_self
      have whole' : ∀ s ∈ groups, s.Whole := fun s mem =>
        whole s (List.mem_cons_of_mem _ mem)
      obtain ⟨last?, noDot', read⟩ := first.statements_eq noDot
        (groups.flatMap Statement.all ++ (middle ++ tail))
      rw [List.flatMap_cons, List.append_assoc, List.append_assoc, read]
      -- the head of what follows, if it is a semicolon that this statement takes
      have taken : s.semicolon?.or
            ((groups.flatMap Statement.all ++ (middle ++ tail)).head?.filter
              (·.text == [';'])) =
          s.semicolon? ∨ s.semicolon? = none ∧ groups = [] ∧
            ∃ c middle', middle = c :: middle' ∧
            c.text = [';'] ∧ s.semicolon?.or ((groups.flatMap Statement.all ++
              (middle ++ tail)).head?.filter (·.text == [';'])) = some c := by
        cases behind : s.semicolon? with
        | some c => exact .inl rfl
        | none =>
            rw [Option.none_or]
            cases groups with
            | cons g groups =>
                obtain ⟨t, rest, shape, other⟩ :=
                  (whole' g List.mem_cons_self).text_ne
                exact .inl (by simp [shape, other])
            | nil =>
                cases middle with
                | nil =>
                    refine .inl ?_
                    cases tail with
                    | nil => rfl
                    | cons t tail => simpa using notSemicolon t rfl
                | cons c middle =>
                    by_cases isSemicolon : c.text = [';']
                    · exact .inr ⟨rfl, rfl, c, middle, rfl, isSemicolon,
                        by simp [isSemicolon]⟩
                    · exact .inl (by simp [isSemicolon])
      rcases taken with kept | ⟨none', rfl, c, middle', rfl, isSemicolon, kept⟩
      · obtain ⟨middle', rest⟩ := ih whole' noDot'
        refine ⟨middle', ?_⟩
        rw [kept, rest, List.flatMap_cons, List.append_assoc]
      · refine ⟨middle', ?_⟩
        rw [List.cons_append, statements_semicolon isSemicolon,
          statements_of_noDot (by simp [isSemicolon])] at quiet
        rw [kept, List.flatMap_nil, List.nil_append, List.nil_append,
          List.cons_append,
          statements_semicolon isSemicolon,
          statements_of_noDot (by simp [isSemicolon]), quiet]
        simp [Statement.all, none']

/-! ## Statements that are read are whole -/

/-- A statement has a word and perhaps tokens behind it, and the last of them
alone can be a literal. -/
private theorem shape_of_statements {prev? : Option Token} {depth : Nat}
    {ts : List Token} {s : Statement} (mem : s ∈ statements prev? depth ts) :
    (∃ t u, s.tokens = t :: u ∧ t.kind = .name ∧ ∀ x ∈ u, x.kind ≠ .string) ∨
      ∃ t u source, s.tokens = t :: (u ++ [source]) ∧
        starts none t (u ++ [source]).head? = true ∧ (∀ x ∈ u, x.kind ≠ .string) ∧
        source.kind = .string := by
  induction prev?, depth, ts using statements_induction with
  | nil => simp [statements_nil] at mem
  | inside prev? depth t ts ih => exact ih (statements_inside _ _ _ _ ▸ mem)
  | opening prev? t ts closer opening ih =>
      exact ih (statements_opening opening _ _ ▸ mem)
  | other prev? t ts opening notStart ih =>
      exact ih (statements_other opening notStart ▸ mem)
  | unfinished prev? t u start before =>
      rw [statements_unfinished start before, List.mem_singleton] at mem
      exact .inl ⟨t, u, by rw [mem], (closer?_of_starts start).2, before⟩
  | sourced prev? t u source tail start before string ih =>
      rw [statements_sourced start before string] at mem
      rcases List.mem_cons.1 mem with rfl | mem
      · exact .inr ⟨t, u, source, rfl, starts_none start, before, string⟩
      · exact ih mem

private theorem whole_of_statements {prev? : Option Token} {depth : Nat}
    {ts : List Token} {s : Statement} {i : Import}
    (mem : s ∈ statements prev? depth ts) (read : importOf s = .ok i)
    (balanced : Balanced s.tokens) (genuine : ∀ t ∈ s.tokens, t.Genuine) :
    s.Whole := by
  refine ⟨?_, balanced, semicolon_of_statements mem⟩
  rcases shape_of_statements mem with ⟨t, u, shape, word, before⟩ |
    ⟨t, u, source, shape, start, before, string⟩
  · obtain ⟨tokens, semicolon?⟩ := s
    subst shape
    simp [importOf_of_no_literal word before] at read
  · exact ⟨t, u, source, shape, start, before, string,
      genuine source (by simp [shape])⟩

/-! ## The same tokens at other places -/

section Bare

variable {ts ts' : List Token} {t t' : Token}

private theorem exists_of_bare_append {a b : List Token}
    (h : bare ts = bare (a ++ b)) :
    ∃ a' b', ts = a' ++ b' ∧ bare a' = bare a ∧ bare b' = bare b := by
  rw [bare_append] at h
  exact List.map_eq_append_iff.1 h

private theorem exists_of_bare_cons {b : List Token} (h : bare ts = bare (t :: b)) :
    ∃ t' b', ts = t' :: b' ∧ t'.bare = t.bare ∧ bare b' = bare b :=
  List.map_eq_cons_iff.1 h

namespace Token

private theorem kind_eq_of_bare (same : t'.bare = t.bare) : t'.kind = t.kind := by
  simpa using congrArg Token.kind same

private theorem text_eq_of_bare (same : t'.bare = t.bare) : t'.text = t.text := by
  simpa using congrArg Token.text same

theorem Genuine.of_bare (h : t.Genuine) (same : t'.bare = t.bare) : t'.Genuine := by
  rw [Genuine, kind_eq_of_bare same, text_eq_of_bare same]
  exact h

theorem Pairs.of_bare {o c o' c' : Token} (h : o.Pairs c) (same : o'.bare = o.bare)
    (same' : c'.bare = c.bare) : o'.Pairs c' := by
  have closer : o'.closer? = o.closer? := by simpa using congrArg Token.closer? same
  have first : c'.first = c.first := by simpa using congrArg Token.first same'
  exact ⟨by rw [closer, first, h.1], by rw [kind_eq_of_bare same', h.2]⟩

end Token

theorem Unbroken.of_bare (h : Unbroken ts) (same : bare ts' = bare ts) :
    Unbroken ts' := by
  refine ⟨h.1.of_bare same, ?_⟩
  rw [← bare_eq_nil, ← seek_bare, same, seek_bare, h.2]
  rfl

theorem Cut.of_bare {chunks chunks' : List Chunk} (h : Cut chunks)
    (same : chunks'.map Chunk.bare = chunks.map Chunk.bare) : Cut chunks' := by
  induction h generalizing chunks' with
  | nil =>
      obtain rfl := List.map_eq_nil_iff.1 same
      exact .nil
  | last unbroken more =>
      obtain ⟨⟨ts', comma?⟩, rest, rfl, first, none'⟩ := List.map_eq_cons_iff.1 same
      obtain rfl := List.map_eq_nil_iff.1 none'
      simp only [Chunk.bare, Chunk.mk.injEq, Option.map_none,
        Option.map_eq_none_iff] at first
      obtain ⟨tokens, rfl⟩ := first
      exact .last (unbroken.of_bare tokens) fun empty =>
        more (bare_eq_nil.1 (by rw [← tokens, empty]; rfl))
  | @more ts comma chunks unbroken isComma _ ih =>
      obtain ⟨⟨ts', comma?⟩, rest, rfl, first, later⟩ := List.map_eq_cons_iff.1 same
      simp only [Chunk.bare, Chunk.mk.injEq, Option.map_some,
        Option.map_eq_some_iff] at first
      obtain ⟨tokens, comma', rfl, here⟩ := first
      refine .more (unbroken.of_bare tokens) ?_ (ih later)
      have isPunct : comma'.isPunctIn [','] = comma.isPunctIn [','] := by
        simpa using congrArg (Token.isPunctIn · [',']) here
      rw [← Token.isPunctIn_comma, isPunct, Token.isPunctIn_comma, isComma]

private theorem join_bare (chunks : List Chunk) :
    join (chunks.map Chunk.bare) = bare (join chunks) :=
  join_map Token.bare chunks

private theorem exists_of_bare_join {chunks : List Chunk}
    (h : bare ts = bare (join chunks)) :
    ∃ chunks', ts = join chunks' ∧
      chunks'.map Chunk.bare = chunks.map Chunk.bare := by
  induction chunks generalizing ts with
  | nil => exact ⟨[], bare_eq_nil.1 h, rfl⟩
  | cons chunk chunks ih =>
      rw [join_cons] at h
      obtain ⟨first, later, rfl, here, there⟩ := exists_of_bare_append h
      obtain ⟨tokens, comma, rfl, same, same'⟩ := exists_of_bare_append here
      obtain ⟨chunks', rfl, rest⟩ := ih there
      have comma' : ∃ comma?, comma = Option.toList comma? ∧
          comma?.map Token.bare = chunk.comma?.map Token.bare := by
        cases behind : chunk.comma? with
        | none =>
            rw [behind] at same'
            exact ⟨none, bare_eq_nil.1 same', rfl⟩
        | some c =>
            rw [behind] at same'
            obtain ⟨c', none', rfl, isComma, empty⟩ := exists_of_bare_cons same'
            obtain rfl := bare_eq_nil.1 empty
            exact ⟨some c', rfl, congrArg some isComma⟩
      obtain ⟨comma?, rfl, isComma⟩ := comma'
      exact ⟨⟨tokens, comma?⟩ :: chunks', rfl,
        by simp [Chunk.bare, same, isComma, rest]⟩

theorem IsBlock.of_bare (h : IsBlock ts) (same : bare ts' = bare ts) :
    IsBlock ts' := by
  obtain ⟨o, inner, c, rfl, brace, pair, inside⟩ := h
  obtain ⟨o', rest, rfl, opening, behind⟩ := exists_of_bare_cons same
  obtain ⟨inner', last, rfl, within, end'⟩ := exists_of_bare_append behind
  obtain ⟨c', none', rfl, closing, empty⟩ := exists_of_bare_cons end'
  obtain rfl := bare_eq_nil.1 empty
  exact ⟨o', inner', c', rfl, (Token.text_eq_of_bare opening).trans brace,
    pair.of_bare opening closing, inside.of_bare within⟩

theorem Undeclared.of_bare {listName : Text} {prev? prev?' : Option Token}
    (h : Undeclared listName prev? ts)
    (first : prev?'.map Token.bare = prev?.map Token.bare)
    (same : bare ts' = bare ts) : Undeclared listName prev?' ts' := by
  induction ts generalizing ts' prev? prev?' with
  | nil =>
      obtain rfl := bare_eq_nil.1 same
      trivial
  | cons t ts ih =>
      obtain ⟨t', rest, rfl, here, behind⟩ := exists_of_bare_cons same
      refine ⟨?_, ih h.2 (congrArg some here) behind⟩
      rw [← declared_bare, first, here, declared_bare]
      exact h.1

theorem Statement.Whole.of_bare {s s' : Statement} (h : s.Whole)
    (same : s'.bare = s.bare) :
    s'.Whole := by
  obtain ⟨t, u, source, shape, start, before, literal, genuine⟩ := h.shape
  have tokens : Registry.bare s'.tokens = Registry.bare s.tokens :=
    congrArg Statement.tokens same
  have semicolon : s'.semicolon?.map Token.bare = s.semicolon?.map Token.bare :=
    congrArg Statement.semicolon? same
  refine ⟨?_, h.balanced.of_bare tokens, fun c there => ?_⟩
  · rw [shape] at tokens
    obtain ⟨t', rest, shape', first, behind⟩ := exists_of_bare_cons tokens
    obtain ⟨u', last, rfl, within, end'⟩ := exists_of_bare_append behind
    obtain ⟨source', none', rfl, isSource, empty⟩ := exists_of_bare_cons end'
    obtain rfl := bare_eq_nil.1 empty
    refine ⟨t', u', source', shape', ?_, ?_,
      (Token.kind_eq_of_bare isSource).trans literal, genuine.of_bare isSource⟩
    · have next : (u' ++ [source']).head?.map Token.bare =
          (u ++ [source]).head?.map Token.bare := by
        rw [← head?_bare, ← head?_bare, behind]
      have moved := starts_bare none t' (u' ++ [source']).head?
      rw [first, next] at moved
      rw [← moved]
      exact (starts_bare none t _).trans start
    · intro x mem
      have mem' : x.bare ∈ Registry.bare u := within ▸ List.mem_map_of_mem mem
      obtain ⟨y, inside, same⟩ := List.mem_map.1 mem'
      exact Token.kind_eq_of_bare same ▸ before y inside
  · rw [there, Option.map_some] at semicolon
    obtain ⟨c', there', same⟩ := Option.map_eq_some_iff.1 semicolon.symm
    rw [← Token.text_eq_of_bare same]
    exact h.semicolon c' there'

private theorem exists_of_bare_flatMap {groups : List Statement}
    (h : bare ts = bare (groups.flatMap Statement.all)) :
    ∃ groups' : List Statement, ts = groups'.flatMap Statement.all ∧
      groups'.map Statement.bare = groups.map Statement.bare := by
  -- a statement with its semicolon is like a chunk with its comma
  have chunks (groups : List Statement) : groups.flatMap Statement.all =
      join (groups.map fun s => ⟨s.tokens, s.semicolon?⟩) := by
    rw [join, List.flatMap_map]
    rfl
  rw [chunks] at h
  obtain ⟨chunks', rfl, same⟩ := exists_of_bare_join h
  refine ⟨chunks'.map fun chunk => ⟨chunk.tokens, chunk.comma?⟩, ?_, ?_⟩
  · rw [chunks, List.map_map]
    exact congrArg join (List.map_id _).symm
  · have back := congrArg
      (List.map fun chunk : Chunk => Statement.mk chunk.tokens chunk.comma?) same
    rw [List.map_map, List.map_map, List.map_map] at back
    rw [List.map_map]
    exact back

end Bare

/-! ## Arranged declarations -/

namespace Declaration

variable {listName text : Text} {d d' : Declaration} {groups : List Statement}

/-- What a layout is, without regard to how its statements are found: whole
statements first, then no other one. -/
structure Arranged (listName : Text) (d : Declaration)
    (groups : List Statement) : Prop where
  opens : d.Opens listName
  whole : ∀ s ∈ groups, s.Whole
  ahead : ∃ middle, d.ahead = groups.flatMap Statement.all ++ middle ∧
    statements none 0 (middle ++ (d.body ++ d.back)) = []
  blocks : ∀ chunk ∈ d.chunks, IsBlock chunk.tokens
  named : d.name.text ≠ [';']

private theorem Arranged.map_tokens (h : d.Arranged listName groups) :
    (statements none 0 d.tokens).map Statement.tokens =
      groups.map Statement.tokens := by
  obtain ⟨middle, ahead, quiet⟩ := h.ahead
  rw [tokens_eq, ahead, List.append_assoc, List.append_assoc,
    statements_whole h.whole rfl, quiet, List.map_nil, List.append_nil]

theorem Arranged.layout (h : d.Arranged listName groups) : d.Layout listName := by
  obtain ⟨middle, ahead, quiet⟩ := h.ahead
  refine ⟨h.opens, ?_, ?_, h.blocks⟩
  · have noDot : (none : Option Token).any (·.text == ['.']) = false := rfl
    obtain ⟨middle', rest⟩ :=
      exists_middle h.whole noDot (by simpa [body] using h.named) quiet
    refine ⟨middle', ?_⟩
    have split : d.tokens = groups.flatMap Statement.all ++
        (middle ++ (d.body ++ d.back)) := by
      rw [tokens_eq, ahead, List.append_assoc, List.append_assoc]
    rw [split, ahead, rest]
  · intro s mem
    have tokens : s.tokens ∈ groups.map Statement.tokens := by
      rw [← h.map_tokens]
      exact List.mem_map_of_mem mem
    obtain ⟨g, inside, same⟩ := List.mem_map.1 tokens
    exact same ▸ (h.whole g inside).balanced

theorem Layout.arranged {imports : List Import} (h : d.Layout listName)
    (genuine : ∀ t ∈ d.tokens, t.Genuine)
    (read : importsOf (statements none 0 d.tokens) = .ok imports) :
    d.Arranged listName (statements none 0 d.tokens) := by
  obtain ⟨middle, ahead⟩ := h.imports
  have inside : ∀ s ∈ statements none 0 d.tokens, ∀ t ∈ s.tokens, t ∈ d.tokens := by
    intro s mem t among
    rw [tokens_eq, ahead]
    simp only [List.mem_append, List.mem_flatMap]
    exact .inl (.inl (.inl ⟨s, mem, List.mem_append_left _ among⟩))
  have whole : ∀ s ∈ statements none 0 d.tokens, s.Whole := by
    intro s mem
    obtain ⟨i, -, read'⟩ := exists_import read mem
    exact whole_of_statements mem read' (h.complete s mem) fun t among =>
      genuine t (inside s mem t among)
  refine ⟨h.opens, whole, ⟨middle, ahead, ?_⟩, h.blocks,
    (genuine d.name (by simp [tokens_eq, body])).text_ne_semicolon
      h.opens.name_kind⟩
  have split : d.tokens = (statements none 0 d.tokens).flatMap Statement.all ++
      (middle ++ (d.body ++ d.back)) := by
    conv_lhs => rw [tokens_eq, ahead, List.append_assoc, List.append_assoc]
  have noDot : (none : Option Token).any (·.text == ['.']) = false := rfl
  have counted := congrArg List.length
    (statements_whole whole noDot (middle ++ (d.body ++ d.back)))
  rw [← split] at counted
  simp only [List.length_map, List.length_append] at counted
  exact List.length_eq_zero_iff.1 (by omega)

/-! ## Other records, and one statement less -/

theorem Arranged.replace (h : d.Arranged listName groups) {chunks : List Chunk}
    (cut : Cut chunks) (blocks : ∀ chunk ∈ chunks, IsBlock chunk.tokens) :
    Arranged listName { d with chunks := chunks } groups := by
  obtain ⟨middle, ahead, quiet⟩ := h.ahead
  refine ⟨h.opens.replace cut, h.whole, ⟨middle, ahead, ?_⟩, blocks, h.named⟩
  have around (chunks : List Chunk) :
      middle ++ (body { d with chunks := chunks } ++ d.back) =
        (middle ++ d.name :: d.between) ++ d.opener ::
          (join chunks ++ d.closer :: d.back) := by
    simp [body]
  have quiet' : statements none 0
      ((middle ++ d.name :: d.between) ++ d.opener ::
        (join d.chunks ++ d.closer :: d.back)) = [] := by
    rw [← around]
    exact quiet
  rw [around, statements_replace h.opens.pair h.opens.cut.balanced cut.balanced
    (by rw [quiet']; simp), quiet']

/-- The tokens of a text are distinct, so that a statement stands at one place
only. -/
theorem Arranged.without {earlier later : List Statement} {s : Statement}
    {front back : List Token} (h : d.Arranged listName (earlier ++ s :: later))
    (nodup : d.tokens.Nodup) (without : d.Without listName s front back d') :
    d'.Arranged listName (earlier ++ later) := by
  obtain ⟨middle, ahead, quiet⟩ := h.ahead
  obtain ⟨t, u, shape, -⟩ := (h.whole s (by simp)).text_ne
  have split : d.tokens = earlier.flatMap Statement.all ++
      t ::
        (u ++ (later.flatMap Statement.all ++ middle ++ (d.body ++ d.back))) := by
    rw [tokens_eq, ahead]
    simp [shape]
  have split' := without.tokens
  rw [shape, List.append_assoc, List.cons_append] at split'
  obtain ⟨rfl, rest⟩ := eq_of_nodup nodup split' split
  have rest := List.append_cancel_left rest
  have ahead' : d.ahead = earlier.flatMap Statement.all ++ s.all ++
      (later.flatMap Statement.all ++ middle) := by
    rw [ahead]
    simp
  rcases without.side with ⟨x, split'', rfl⟩ | ⟨x, split'', -⟩
  · have same : x = later.flatMap Statement.all ++ middle :=
      List.append_cancel_left (split''.symm.trans ahead')
    have whole : ∀ g ∈ earlier ++ later, g.Whole := fun g mem =>
      h.whole g (by simp only [List.mem_append, List.mem_cons] at mem ⊢; tauto)
    refine ⟨without.opens, whole, ⟨middle, ?_, quiet⟩, h.blocks, h.named⟩
    rw [same]
    simp
  · rw [tokens_eq, ahead', split''] at nodup
    have twice := (List.nodup_append.1 nodup).2.2
    exact absurd rfl (twice t (by simp [shape]) t (by simp [shape]))

/-! ## The same declaration at another place -/

def bare (d : Declaration) : Declaration :=
  ⟨Registry.bare d.ahead, d.name.bare, Registry.bare d.between, d.opener.bare,
    d.chunks.map Chunk.bare, d.closer.bare, Registry.bare d.back⟩

private theorem tokens_bare (d : Declaration) :
    d.bare.tokens = Registry.bare d.tokens := by
  simp [tokens, front, bare, join_bare]

theorem exists_of_bare {ts : List Token}
    (h : Registry.bare ts = Registry.bare d.tokens) :
    ∃ d', ts = tokens d' ∧ d'.bare = d.bare := by
  obtain ⟨front, rest, rfl, first, behind⟩ := exists_of_bare_append h
  obtain ⟨ahead, rest', rfl, ahead', nameOn⟩ := exists_of_bare_append first
  obtain ⟨name, between, rfl, name', between'⟩ := exists_of_bare_cons nameOn
  obtain ⟨opener, list, rfl, opener', listOn⟩ := exists_of_bare_cons behind
  obtain ⟨elements, rest, rfl, elements', closing⟩ := exists_of_bare_append listOn
  obtain ⟨closer, back, rfl, closer', back'⟩ := exists_of_bare_cons closing
  obtain ⟨chunks, rfl, chunks'⟩ := exists_of_bare_join elements'
  exact ⟨⟨ahead, name, between, opener, chunks, closer, back⟩, rfl, by
    simp [bare, ahead', name', between', opener', chunks', closer', back']⟩

theorem Opens.of_bare (h : d.Opens listName) (same : d'.bare = d.bare) :
    d'.Opens listName := by
  have tokens : Registry.bare d'.tokens = Registry.bare d.tokens := by
    rw [← tokens_bare, same, tokens_bare]
  simp only [bare, mk.injEq] at same
  obtain ⟨ahead, name, between, opener, chunks, closer, back⟩ := same
  have list :
      Registry.bare (d'.opener :: (join d'.chunks ++ d'.closer :: d'.back)) =
        Registry.bare (d.opener :: (join d.chunks ++ d.closer :: d.back)) := by
    simp [opener, closer, back, ← join_bare, chunks]
  refine ⟨h.balanced.of_bare tokens, h.pair.of_bare opener closer,
    h.cut.of_bare chunks, h.undeclared.of_bare rfl ahead, ?_, ?_⟩
  · rw [← declared_bare, name, ← getLast?_bare, ahead, getLast?_bare, declared_bare]
    exact h.declared
  · -- what is found has the length of the list, and both are what is left of
    -- the same tokens
    have found := opened?_bare
      (assignmentOf (d'.between ++ d'.opener ::
        (join d'.chunks ++ d'.closer :: d'.back)))
    rw [← assignmentOf_bare, bare_append, between, list, ← bare_append,
      assignmentOf_bare, opened?_bare, h.opened] at found
    obtain ⟨suffix, found', same⟩ := Option.map_eq_some_iff.1 found.symm
    rw [found']
    obtain ⟨e, -, -, made, -⟩ := opened?_suffix found'
    have isSuffix : suffix <:+ d'.between ++ d'.opener ::
        (join d'.chunks ++ d'.closer :: d'.back) :=
      (made ▸ List.suffix_cons e suffix).trans (assignmentOf_suffix _)
    have length : suffix.length =
        (d'.opener :: (join d'.chunks ++ d'.closer :: d'.back)).length := by
      rw [← length_bare, same, ← list, length_bare]
    rw [List.IsSuffix.eq_of_length
      (List.suffix_of_suffix_length_le isSuffix (List.suffix_append _ _)
        length.le) length]

theorem Arranged.of_bare (h : d.Arranged listName groups)
    (same : d'.bare = d.bare) :
    ∃ groups', d'.Arranged listName groups' := by
  obtain ⟨middle, ahead, quiet⟩ := h.ahead
  have opens := h.opens.of_bare same
  simp only [bare, mk.injEq] at same
  obtain ⟨ahead', name, between, opener, chunks, closer, back⟩ := same
  rw [ahead] at ahead'
  obtain ⟨first, middle', split, here, rest⟩ := exists_of_bare_append ahead'
  obtain ⟨groups', rfl, each⟩ := exists_of_bare_flatMap here
  refine ⟨groups', opens, fun s mem => ?_, ⟨middle', split, ?_⟩,
    fun chunk mem => ?_, ?_⟩
  · obtain ⟨g, inside, same⟩ := List.mem_map.1 (each ▸ List.mem_map_of_mem mem)
    exact (h.whole g inside).of_bare same.symm
  · have same : Registry.bare (middle' ++ (d'.body ++ d'.back)) =
        Registry.bare (middle ++ (d.body ++ d.back)) := by
      simp [body, rest, name, between, opener, closer, back, ← join_bare, chunks]
    have moved := statements_bare none 0 (middle' ++ (d'.body ++ d'.back))
    rw [same] at moved
    have moved' := statements_bare none 0 (middle ++ (d.body ++ d.back))
    rw [quiet, moved] at moved'
    exact List.map_eq_nil_iff.1 moved'
  · obtain ⟨c, inside, same⟩ := List.mem_map.1 (chunks ▸ List.mem_map_of_mem mem)
    exact (h.blocks c inside).of_bare (congrArg Chunk.tokens same).symm
  · rw [Token.text_eq_of_bare name]
    exact h.named

end Declaration

end Showcase.Registry

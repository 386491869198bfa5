import Showcase.Proofs.Registry.Statements

/-!
# A literal among import statements

A word `import` takes the next literal for its source, wherever that stands.  So
a literal in place of other tokens can end a statement early, and what stands
behind it is then read as if no bracket were open.  Tokens that could be read
before still can (`Readable.exchange`).
-/

namespace Showcase.Registry

/-- A literal that can be the source of an import. -/
def Token.IsSource (t : Token) : Prop :=
  t.kind = .string ∧ ∃ path, t.value = .ok path

/-- A token that never starts an import. -/
def Token.Inert (t : Token) : Prop := ∀ prev? next?, starts prev? t next? = false

theorem Token.Inert.of_kind {t : Token} (h : t.kind ≠ .name) : t.Inert := by
  intro prev? next?
  simp [starts, h]

theorem Token.Inert.of_text {t : Token} (h : t.text ≠ "import".toList) :
    t.Inert := by
  intro prev? next?
  rw [starts, beq_eq_false_iff_ne.2 h]
  simp

theorem Token.IsSource.closer? {t : Token} (h : t.IsSource) : t.closer? = none := by
  simp [Token.closer?, h.1]

theorem Token.IsSource.closes {t : Token} (h : t.IsSource) : t.closes = false := by
  simp [Token.closes, h.1]

theorem Token.IsSource.inert {t : Token} (h : t.IsSource) :
    t.Inert := .of_kind (by simp [h.1])

/-! ## Reading token by token -/

/-- Whether every import among some tokens has a source. -/
def Readable (prev? : Option Token) (depth : Nat) (ts : List Token) : Prop :=
  ∃ imports, importsOf (statements prev? depth ts) = .ok imports

section Steps

variable {prev? prev?' : Option Token} {depth : Nat} {t source : Token}
  {ts u rest : List Token}

private theorem readable_inside : Readable prev? (depth + 1) (t :: ts) ↔
    Readable (some t)
      (if t.closer?.isSome then depth + 2 else if t.closes then depth else
        depth + 1) ts := by
  rw [Readable, statements_inside]
  rfl

private theorem readable_opening {closer : Char}
    (opening : t.closer? = some closer) :
    Readable prev? 0 (t :: ts) ↔ Readable (some t) 1 ts := by
  rw [Readable, statements_opening opening]
  rfl

private theorem readable_other (opening : t.closer? = none)
    (notStart : starts prev? t ts.head? = false) :
    Readable prev? 0 (t :: ts) ↔ Readable (some t) 0 ts := by
  rw [Readable, statements_other opening notStart]
  rfl

private theorem readable_group {o c : Token} {inner : List Token} (pair : o.Pairs c)
    (inside : Balanced inner) :
    Readable prev? depth (o :: (inner ++ c :: rest)) ↔
      Readable (some c) depth rest := by
  rw [Readable, statements_group pair inside]
  rfl

private theorem readable_sourced
    (start : starts prev? t (u ++ [source]).head? = true)
    (before : ∀ t ∈ u, t.kind ≠ .string) (string : source.kind = .string) :
    Readable prev? 0 (t :: (u ++ source :: rest)) ↔
      source.IsSource ∧ Readable (some source) 0 rest := by
  have final : (t :: (u ++ [source])).getLast? = some source := by
    rw [← List.cons_append, List.getLast?_concat]
  rw [Readable, statements_sourced start before string, importsOf, importOf]
  simp only [final, if_pos string]
  constructor
  · rintro ⟨imports, read⟩
    obtain ⟨first, here, later⟩ := bind_eq_ok_iff.1 read
    obtain ⟨path, decoded, -⟩ := map_eq_ok_iff.1 here
    obtain ⟨imports', behind, -⟩ := map_eq_ok_iff.1 later
    exact ⟨⟨string, path, decoded⟩, imports', behind⟩
  · rintro ⟨⟨-, path, decoded⟩, imports, behind⟩
    exact ⟨_, by rw [decoded, map_ok, ok_bind, behind, map_ok]⟩

private theorem not_readable_unfinished (start : starts prev? t u.head? = true)
    (before : ∀ t ∈ u, t.kind ≠ .string) : ¬Readable prev? 0 (t :: u) := by
  rintro ⟨imports, read⟩
  rw [statements_unfinished start before, importsOf,
    importOf_of_no_literal (closer?_of_starts start).2 before] at read
  simp at read

/-- A statement that can be read takes the next literal. -/
private theorem exists_source (start : starts prev? t (u ++ ts).head? = true)
    (before : ∀ t ∈ u, t.kind ≠ .string) (h : Readable prev? 0 (t :: (u ++ ts))) :
    ∃ v source rest, ts = v ++ source :: rest ∧ (∀ t ∈ v, t.kind ≠ .string) ∧
      source.IsSource ∧
      Readable (some source) 0 rest := by
  rcases exists_literal ts with none | ⟨v, source, rest, rfl, before', string⟩
  · exact absurd h
      (not_readable_unfinished start (List.forall_mem_append.2 ⟨before, none⟩))
  · rw [← List.append_assoc] at start h
    rw [head?_append_cons] at start
    obtain ⟨isSource, behind⟩ :=
      (readable_sourced start (List.forall_mem_append.2 ⟨before, before'⟩)
        string).1 h
    exact ⟨v, source, rest, rfl, before', isSource, behind⟩

/-- The token before matters only to the word `import`. -/
theorem Readable.congr (inert : ∀ t ∈ ts.head?, t.Inert)
    (h : Readable prev? depth ts) :
    Readable prev?' depth ts := by
  cases ts with
  | nil => exact ⟨[], by rw [statements_nil]; rfl⟩
  | cons t ts =>
      cases depth with
      | succ depth => exact readable_inside.2 (readable_inside.1 h)
      | zero =>
          have here : t.Inert := inert t rfl
          cases opening : t.closer? with
          | some closer =>
              exact (readable_opening opening).2 ((readable_opening opening).1 h)
          | none =>
              exact (readable_other opening (here _ _)).2
                ((readable_other opening (here _ _)).1 h)

end Steps

/-! ## Reading on behind a literal -/

/-- Tokens that some others make balanced when they stand before them. -/
def Trailing (ts : List Token) : Prop := ∃ front, Balanced (front ++ ts)

theorem Trailing.of_append {ts ts' : List Token} (h : Trailing (ts ++ ts')) :
    Trailing ts' := by
  obtain ⟨front, balanced⟩ := h
  exact ⟨front ++ ts, by rwa [List.append_assoc]⟩

theorem Trailing.tail {t : Token} {ts : List Token} (h : Trailing (t :: ts)) :
    Trailing ts :=
  Trailing.of_append (show Trailing ([t] ++ ts) from h)

theorem Trailing.exists_group {o : Token} {closer : Char} {ts : List Token}
    (h : Trailing (o :: ts)) (opening : o.closer? = some closer) :
    ∃ inner c rest, ts = inner ++ c :: rest ∧ o.Pairs c ∧ Balanced inner := by
  obtain ⟨front, balanced⟩ := h
  exact balanced.exists_group opening

/-- Whether tokens that can be read behind their first literal can be read from
their start. -/
def Resumes (ts : List Token) : Prop :=
  ∀ u source rest, ts = u ++ source :: rest → (∀ t ∈ u, t.kind ≠ .string) →
    source.IsSource →
    Readable (some source) 0 rest → ∀ prev?, Readable prev? 0 ts

section Behind

variable {prev? : Option Token} {t : Token} {u ts tail : List Token}

private theorem Resumes.exists_source (resumes : Resumes tail)
    (start : starts prev? t (u ++ (ts ++ tail)).head? = true)
    (before : ∀ t ∈ u, t.kind ≠ .string)
    (h : Readable prev? 0 (t :: (u ++ (ts ++ tail)))) :
    (∀ prev?, Readable prev? 0 tail) ∨
      ∃ v source rest, ts = v ++ source :: rest ∧
      Readable (some source) 0 (rest ++ tail) := by
  rcases exists_literal ts with none | ⟨v, source, rest, rfl, before', string⟩
  · rw [← List.append_assoc] at start h
    obtain ⟨w, source, rest, rfl, before', isSource, later⟩ :=
      Registry.exists_source start (List.forall_mem_append.2 ⟨before, none⟩) h
    exact .inl (resumes w source rest rfl before' isSource later)
  · have shape : u ++ (v ++ source :: rest ++ tail) = (u ++ v) ++ source ::
        (rest ++ tail) := by
      simp
    rw [shape] at start h
    rw [head?_append_cons] at start
    obtain ⟨-, later⟩ :=
      (readable_sourced start (List.forall_mem_append.2 ⟨before, before'⟩)
        string).1 h
    exact .inr ⟨v, source, rest, rfl, later⟩

/-- What is read behind the rest of a group is read behind the group. -/
theorem Readable.behind (trailing : Trailing ts)
    (inert : ∀ t ∈ tail.head?, t.Inert) (resumes : Resumes tail)
    (h : Readable prev? 0 (ts ++ tail)) (prev?' : Option Token) :
    Readable prev?' 0 tail := by
  induction len : ts.length using Nat.strongRecOn generalizing prev? ts with
  | _ n ih =>
    subst len
    cases ts with
    | nil => exact h.congr inert
    | cons t ts =>
        cases opening : t.closer? with
        | some closer =>
            obtain ⟨inner, c, rest, rfl, pair, inside⟩ :=
              trailing.exists_group opening
            have skipped : Readable (some c) 0 (rest ++ tail) := by
              refine (readable_group pair inside).1 (?_ : Readable prev? 0 _)
              simpa using h
            exact ih rest.length (by simp; omega) trailing.tail.of_append.tail
              skipped rfl
        | none =>
            cases start : starts prev? t (ts ++ tail).head? with
            | false =>
                exact ih ts.length (by simp) trailing.tail
                  ((readable_other opening start).1 h) rfl
            | true =>
                rcases resumes.exists_source (show starts prev? t
                  ([] ++ (ts ++ tail)).head? = true from start)
                    (by simp) h with
                  read | ⟨v, source, rest, rfl, later⟩
                · exact read prev?'
                · exact ih rest.length (by simp; omega)
                    trailing.tail.of_append.tail later rfl

end Behind

private theorem Trailing.resumes {ts : List Token} (h : Trailing ts) :
    Resumes ts := by
  intro u source rest shape before isSource later prev?
  induction len : ts.length
    using Nat.strongRecOn generalizing prev? ts u source rest with
  | _ n ih =>
    subst len
    subst shape
    cases u with
    | nil => exact (readable_other isSource.closer? (isSource.inert _ _)).2 later
    | cons t u =>
        have before' : ∀ t ∈ u, t.kind ≠ .string := fun t mem =>
          before t (by simp [mem])
        cases opening : t.closer? with
        | none =>
            cases start : starts prev? t (u ++ source :: rest).head? with
            | true =>
                rw [head?_append_cons] at start
                exact (readable_sourced start before' isSource.1).2 ⟨isSource,
                  later⟩
            | false =>
                exact (readable_other opening start).2
                  (ih (u ++ source :: rest).length (by simp) h.tail u source
                    rest rfl before' isSource later _ rfl)
        | some closer =>
            obtain ⟨inner, c, back, shape, pair, inside⟩ :=
              Trailing.exists_group (show Trailing (t :: (u ++ source :: rest))
                from h) opening
            have shorter : (c :: back).length <
                (t :: (u ++ source :: rest)).length := by
              rw [shape]
              simp only [List.length_cons, List.length_append]
              omega
            have trailing : Trailing (c :: back) := by
              have := Trailing.tail
                (show Trailing (t :: (u ++ source :: rest)) from h)
              rw [shape] at this
              exact this.of_append
            have closing : c.closer? = none := pair.closer?_eq_none
            have inert : c.Inert := .of_kind (by simp [pair.2])
            have skip : Readable (some t) 0 (c :: back) →
                Readable prev? 0 (t :: (u ++ source :: rest)) := by
              intro read
              rw [shape, readable_group pair inside]
              exact (readable_other closing (inert _ _)).1 read
            refine skip ?_
            obtain ⟨w, rfl, shape'⟩ | ⟨w, rfl, shape'⟩ :=
              List.append_eq_append_iff.1 shape
            · cases w with
              | nil =>
                  obtain ⟨rfl, rfl⟩ := List.cons.inj shape'
                  exact absurd isSource.1 (by simp [pair.2])
              | cons first w =>
                  obtain ⟨rfl, rfl⟩ := List.cons.inj shape'
                  -- the literal stands in the group
                  refine later.behind ⟨u ++ [source], by simpa using inside⟩
                    (by simpa using inert) ?_ _
                  intro v source' rest' shape before isSource later prev?
                  exact ih (c :: back).length shorter trailing v source' rest'
                    shape before isSource later prev? rfl
            · exact ih (c :: back).length shorter trailing w source rest shape'
                (fun t mem => before' t (by simp [mem])) isSource later _ rfl

/-! ## A literal in place of other tokens -/

/-- A place between two signs for whole groups of tokens. -/
structure Slot (front middle back : List Token) : Prop where
  balanced : Balanced middle
  before : ∃ t, front.getLast? = some t ∧ t.Inert
  behind : ∃ t, back.head? = some t ∧ t.Inert

theorem Slot.widen {front middle back : List Token}
    (slot : Slot front middle back) (front' back' : List Token) :
    Slot (front' ++ front) middle (back ++ back') := by
  obtain ⟨balanced, ⟨t, last, inert⟩, t', first, inert'⟩ := slot
  exact ⟨balanced, ⟨t, by rw [List.getLast?_append, last]; rfl, inert⟩,
    t', by rw [List.head?_append, first]; rfl, inert'⟩

/-- With a literal in place of other tokens the imports can still be read. -/
theorem Readable.exchange {front middle back : List Token} {lit : Token}
    (isSource : lit.IsSource) (inside : Balanced middle)
    (before : ∀ t ∈ front.getLast?, t.Inert)
    (behind : ∀ t ∈ back.head?, t.Inert) (trailing : Trailing back)
    {prev? : Option Token} {depth : Nat}
    (h : Readable prev? depth (front ++ (middle ++ back))) :
    Readable prev? depth (front ++ lit :: back) := by
  have last {t : Token} {front : List Token}
      (before : ∀ x ∈ (t :: front).getLast?, x.Inert) :
      ∀ x ∈ front.getLast?, x.Inert :=
    fun x mem => before x (by rw [List.getLast?_cons, mem]; rfl)
  induction prev?, depth, front using statements_induction with
  | nil prev? depth =>
      rw [List.nil_append] at h ⊢
      cases depth with
      | succ depth =>
          have skipped := statements_append_of_awaited
            (inside.awaited_eq []) depth prev? back
          rw [List.length_nil, Nat.zero_add] at skipped
          rw [Readable, skipped] at h
          refine readable_inside.2 ?_
          rw [isSource.closer?, isSource.closes]
          exact Readable.congr behind h
      | zero =>
          exact (readable_other isSource.closer? (isSource.inert _ _)).2
            (h.behind ⟨[], inside⟩ behind trailing.resumes _)
  | inside prev? depth t front ih =>
      exact readable_inside.2 (ih (last before) (readable_inside.1 h))
  | opening prev? t front closer opening ih =>
      exact (readable_opening opening).2
        (ih (last before) ((readable_opening opening).1 h))
  | other prev? t front opening notStart ih =>
      have notStart' (ts : List Token) : starts prev? t (front ++ ts).head? =
          false := by
        cases front with
        | nil => exact before t rfl _ _
        | cons next front => exact notStart
      exact (readable_other opening (notStart' _)).2
        (ih (last before) ((readable_other opening (notStart' _)).1 h))
  | unfinished prev? t u start none =>
      -- the literal ends the statement that ran into the other tokens
      refine (readable_sourced (starts_append start _) none isSource.1).2
        ⟨isSource, ?_⟩
      rcases trailing.resumes.exists_source (starts_append start _) none h with
        read | ⟨v, source, rest, rfl, later⟩
      · exact read _
      · exact later.behind ⟨v ++ [source], by simpa using inside⟩ behind
          trailing.resumes _
  | sourced prev? t u source rest start none string ih =>
      have shape (ts : List Token) :
          t :: (u ++ source :: rest) ++ ts =
            t :: (u ++ source :: (rest ++ ts)) := by
        simp
      rw [shape] at h ⊢
      obtain ⟨isSource', later⟩ := (readable_sourced start none string).1 h
      refine (readable_sourced start none string).2 ⟨isSource',
        ih (fun x mem => before x ?_) later⟩
      rw [← List.cons_append, List.getLast?_append, List.getLast?_cons, mem]
      rfl

theorem Slot.exchange {front middle back : List Token} {lit : Token}
    (slot : Slot front middle back)
    (balanced : Balanced (front ++ (middle ++ back))) (isSource : lit.IsSource)
    (h : Readable none 0 (front ++ (middle ++ back))) :
    Readable none 0 (front ++ lit :: back) := by
  obtain ⟨inside, ⟨t, last, inert⟩, t', first, inert'⟩ := slot
  refine h.exchange isSource inside (by simpa [last] using inert)
    (by simpa [first] using inert')
    ⟨front ++ middle, by rwa [List.append_assoc]⟩

end Showcase.Registry

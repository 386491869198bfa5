import Showcase.Proofs.Registry.Removal

/-!
# The documented layout

A registry has its import statements at its start, one behind the other.  Other
statements may follow, and then the list, all elements of which are records
(`Layout`).  A text of this layout is orderly, so that each of its records can
be cut out.
-/

namespace Showcase.Registry

theorem IsBlock.last {ts : List Token} (h : IsBlock ts) :
    ∀ t ∈ ts.getLast?, t.text ≠ ['/'] := by
  obtain ⟨o, inner, c, shape, -, pair, -⟩ := h
  intro t last slash
  obtain rfl : c = t := by simpa [shape, List.getLast?_cons] using last
  have first : c.first = '/' := (List.cons.inj slash).1
  have := pair.closes
  simp [Token.closes, first, isCloser] at this

theorem semicolon_of_statements {prev? : Option Token} {depth : Nat}
    {ts : List Token} {s : Statement} (mem : s ∈ statements prev? depth ts) :
    ∀ c ∈ s.semicolon?, c.text = [';'] := by
  obtain ⟨earlier, later, split⟩ := List.append_of_mem mem
  obtain ⟨_, _, _, _, -, there⟩ := exists_of_statements split
  intro c isSemicolon
  rw [there.semicolon] at isSemicolon
  simpa using (Option.filter_eq_some_iff.1 isSemicolon).2

namespace Declaration

variable {listName text : Text} {d : Declaration}

/-- The layout of a registry: complete import statements, then other statements
in which the list is not declared, then the list of records and no other import
statement. -/
structure Layout (listName : Text) (d : Declaration) : Prop where
  opens : d.Opens listName
  imports : ∃ middle,
    d.ahead = (statements none 0 d.tokens).flatMap Statement.all ++ middle
  complete : ∀ s ∈ statements none 0 d.tokens, Balanced s.tokens
  blocks : ∀ chunk ∈ d.chunks, IsBlock chunk.tokens

theorem nodup_of_lexed {start : Nat} {tokens : List Token} {next? : Option Char}
    (h : Lexed start text tokens next?) : tokens.Nodup :=
  h.pairwise.imp fun {t t'} behind same => by
    have := t.start_lt_stop
    subst same
    omega

theorem eq_of_nodup {ts front front' back back' : List Token} {t : Token}
    (nodup : ts.Nodup) (split : ts = front ++ t :: back)
    (split' : ts = front' ++ t :: back') :
    front = front' ∧ back = back' := by
  have once : t ∉ front ∧ t ∉ back := by
    rw [split] at nodup
    obtain ⟨-, behind, disjoint⟩ := List.nodup_append.1 nodup
    exact ⟨fun before => disjoint t before t (by simp) rfl,
      (List.nodup_cons.1 behind).1⟩
  obtain ⟨first, -, last⟩ :=
    (List.append_cons_inj_of_notMem once.1 once.2).1 (split.symm.trans split')
  exact ⟨first, last⟩

theorem Layout.orderly {imports : List Import} (h : d.Layout listName)
    (lexed : Lexed 0 text d.tokens none)
    (read : importsOf (statements none 0 d.tokens) = .ok imports) :
    d.Orderly listName := by
  obtain ⟨middle, ahead⟩ := h.imports
  have nodup := nodup_of_lexed lexed
  refine ⟨h.opens, h.complete, ?_, ?_, fun chunk mem => (h.blocks chunk mem).last⟩
  · intro s mem t inside inBody
    rw [tokens_eq] at nodup
    have inAhead : t ∈ d.ahead := by
      rw [ahead]
      exact List.mem_append_left
        _ (List.mem_flatMap.2 ⟨s, mem, List.mem_append_left _ inside⟩)
    have disjoint := (List.nodup_append.1 (List.nodup_append.1 nodup).1).2.2
    exact disjoint t inAhead t inBody rfl
  · intro s mem front back split p last
    obtain ⟨xs, ys, all⟩ := List.append_of_mem mem
    obtain ⟨i, -, readStatement⟩ := exists_import read mem
    obtain ⟨t, _, head, -⟩ := importOf_span readStatement
    obtain ⟨u, shape⟩ := List.head?_eq_some_iff.1 head
    have split' : d.tokens = xs.flatMap Statement.all ++
        t ::
          (u ++ (s.semicolon?.toList ++
            (ys.flatMap Statement.all ++ (middle ++ d.body ++ d.back)))) := by
      rw [tokens_eq, ahead, all]
      simp [Statement.all, shape]
    rw [shape, List.append_assoc, List.cons_append] at split
    obtain rfl : front = xs.flatMap Statement.all :=
      (eq_of_nodup nodup split split').1
    obtain ⟨xs, z, rfl⟩ : ∃ xs' z, xs = xs' ++ [z] := by
      rcases List.eq_nil_or_concat xs with rfl | ⟨xs', z, rfl⟩
      · simp at last
      · exact ⟨xs', z, by simp⟩
    have memZ : z ∈ statements none 0 d.tokens := by simp [all]
    obtain ⟨_, -, readZ⟩ := exists_import read memZ
    obtain ⟨-, source, -, final, literal, -, -⟩ := importOf_span readZ
    have genuine : source.Genuine := by
      refine lexed.genuine source ?_
      rw [tokens_eq, ahead]
      simp only [List.mem_append, List.mem_flatMap]
      exact .inl
        (.inl (.inl ⟨z, memZ, List.mem_append_left _ (List.mem_of_getLast? final)⟩))
    obtain ⟨c, last', apart⟩ :=
      Statement.last_all final literal genuine (semicolon_of_statements memZ)
    rw [List.flatMap_append, List.flatMap_singleton, List.getLast?_append, last']
      at last
    obtain rfl : c = p := Option.some.inj last
    exact apart

end Declaration

/-! ## Records apart -/

/-- A span from the start of one token to the end of another. -/
def Reaches (ts : List Token) (span : Span) : Prop :=
  ∃ t ∈ ts, ∃ u ∈ ts, span = ⟨t.start, u.stop⟩

theorem reaches_extent {ts : List Token} (some : ts ≠ []) :
    Reaches ts (extent ts) := by
  obtain ⟨first, head⟩ :=
    Option.ne_none_iff_exists'.1 (mt List.head?_eq_none_iff.1 some)
  obtain ⟨last, final⟩ :=
    Option.ne_none_iff_exists'.1 (mt List.getLast?_eq_none_iff.1 some)
  refine ⟨first, List.mem_of_mem_head? head, last, List.mem_of_getLast? final, ?_⟩
  rw [extent, head, final]
  rfl

theorem Reaches.mono {ts ts' : List Token} {span : Span} (h : Reaches ts span)
    (subset : ∀ t ∈ ts, t ∈ ts') : Reaches ts' span := by
  obtain ⟨t, mem, u, mem', same⟩ := h
  exact ⟨t, subset t mem, u, subset u mem', same⟩

theorem Reaches.apart {ts ts' : List Token} {span span' : Span}
    (h : Reaches ts span) (h' : Reaches ts' span')
    (row : ∀ t ∈ ts, ∀ t' ∈ ts', t.stop ≤ t'.start) :
    span.stop ≤ span'.start := by
  obtain ⟨-, -, u, mem, rfl⟩ := h
  obtain ⟨t', mem', -, -, rfl⟩ := h'
  exact row u mem t' mem'

theorem extent_ordered {ts : List Token}
    (row : ts.Pairwise fun t t' => t.stop ≤ t'.start) (some : ts ≠ []) :
    (extent ts).start < (extent ts).stop := by
  obtain ⟨first, head⟩ :=
    Option.ne_none_iff_exists'.1 (mt List.head?_eq_none_iff.1 some)
  obtain ⟨last, final⟩ :=
    Option.ne_none_iff_exists'.1 (mt List.getLast?_eq_none_iff.1 some)
  have between := between_of_pairwise row head final (List.mem_of_mem_head? head)
  have ordered := first.start_lt_stop
  rw [extent, head, final]
  exact Nat.lt_of_lt_of_le ordered between.2

private theorem recordOf_ne_nil {piece : List Token}
    {comma? previousComma? : Option Span} {record : Record}
    (h : recordOf piece comma? previousComma? = .ok (some record)) :
    piece ≠ [] := by
  rintro rfl
  simp [recordOf, groupBody?] at h

open Bracketed in
private theorem mem_records {previousComma? : Option Span} {chunks : List Chunk}
    {elements : Elements} (h : elementsOf previousComma? chunks = .ok elements)
    {record : Record} (mem : record ∈ elements.records) :
    ∃ chunk ∈ chunks, chunk.tokens ≠ [] ∧ record.span = extent chunk.tokens := by
  obtain ⟨before, after, split⟩ := List.append_of_mem mem
  obtain ⟨xs, chunk, ys, _, _, _, rfl, read, -⟩ := exists_chunk h split
  exact ⟨chunk, by simp, recordOf_ne_nil read,
    (Declaration.recordOf_eq_some read).1⟩

open Bracketed in
private theorem pairwise_elements {previousComma? : Option Span}
    {chunks : List Chunk} {elements : Elements}
    (h : elementsOf previousComma? chunks = .ok elements)
    (row : (join chunks).Pairwise fun t t' => t.stop ≤ t'.start) :
    elements.records.Pairwise fun record record' =>
      record.span.stop ≤ record'.span.start := by
  induction chunks generalizing previousComma? elements with
  | nil =>
      obtain rfl : elements = ⟨[], 0, false⟩ := by
        simpa [elementsOf, eq_comm] using h
      exact .nil
  | cons chunk chunks ih =>
      rw [elementsOf] at h
      split at h
      next => simp at h
      next some =>
        obtain ⟨record?, read, rest⟩ := bind_eq_ok_iff.1 h
        obtain ⟨later, behind, rfl⟩ := map_eq_ok_iff.1 rest
        rw [join_cons] at row
        obtain ⟨-, rowBehind, apart⟩ := List.pairwise_append.1 row
        have ordered := ih behind rowBehind
        cases record? with
        | none => exact ordered
        | some record =>
            refine List.pairwise_cons.2 ⟨fun record' mem => ?_, ordered⟩
            obtain ⟨chunk', inside, some', same'⟩ := mem_records behind mem
            have here : Reaches chunk.all (extent chunk.tokens) :=
              (reaches_extent some).mono fun t mem => List.mem_append_left _ mem
            have there : Reaches (join chunks) (extent chunk'.tokens) :=
              (reaches_extent some').mono fun t mem =>
                List.mem_flatMap.2 ⟨chunk', inside, List.mem_append_left _ mem⟩
            rw [(Declaration.recordOf_eq_some read).1, same']
            exact here.apart there apart

theorem pairwise_records {text listName : Text} {doc : Document}
    (h : scan text listName = .ok doc) :
    doc.records.Pairwise (fun record record' => record.span.stop ≤
      record'.span.start) ∧
      ∀ record ∈ doc.records, record.span.start < record.span.stop := by
  obtain ⟨front, opener, chunks, closer, back, tokens, located⟩ := exists_located h
  rw [scan_eq tokens located] at h
  obtain ⟨elements, read, rest⟩ := bind_eq_ok_iff.1 h
  obtain ⟨imports, -, rfl⟩ := map_eq_ok_iff.1 rest
  have row := (tokenize_eq_ok_iff.1 tokens).pairwise
  have behind := (List.pairwise_cons.1 (List.pairwise_append.1 row).2.1).2
  have inside := (List.pairwise_append.1 behind).1
  refine ⟨pairwise_elements read inside, fun record mem => ?_⟩
  obtain ⟨chunk, mem, some, same⟩ := mem_records read mem
  obtain ⟨xs, ys, rfl⟩ := List.append_of_mem mem
  rw [join_append, join_cons] at inside
  have own := (List.pairwise_append.1 (List.pairwise_append.1 inside).2.1).1
  rw [same]
  exact extent_ordered (List.pairwise_append.1 own).1 some

theorem isShared_eq {text listName : Text} {doc : Document}
    {before after : List Record} {record : Record}
    (h : scan text listName = .ok doc)
    (records : doc.records = before ++ record :: after) :
    isShared doc record = (before ++ after).any
      (·.value? "component".toList == record.value? "component".toList) := by
  obtain ⟨row, nonempty⟩ := pairwise_records h
  have ordered := nonempty record (by simp [records])
  rw [records] at row
  obtain ⟨-, behind, apart⟩ := List.pairwise_append.1 row
  have differs (other : Record) (mem : other ∈ before ++ after) :
      (other.span != record.span) = true := by
    simp only [bne_iff_ne, ne_eq]
    intro same
    rcases List.mem_append.1 mem with ahead | following
    · have := apart other ahead record (by simp)
      rw [same] at this
      omega
    · have := (List.pairwise_cons.1 behind).1 other following
      rw [same] at this
      omega
  rw [Bool.eq_iff_iff, isShared, records]
  simp only [List.any_eq_true, Bool.and_eq_true]
  constructor
  · rintro ⟨other, mem, apart, same⟩
    have notSelf : other ≠ record := by
      rintro rfl
      simp at apart
    exact ⟨other, by simpa [notSelf] using mem, same⟩
  · rintro ⟨other, mem, same⟩
    refine ⟨other, ?_, differs other mem, same⟩
    simp only [List.mem_append, List.mem_cons] at mem ⊢
    tauto

end Showcase.Registry

import Showcase.Proofs.Registry.Cutting
import Showcase.Proofs.Registry.Declaration
import Showcase.Proofs.Registry.Imports
import Showcase.Proofs.Registry.Records
import Showcase.Registry.Edit

/-!
# Removing a record

A record is removed with the comma behind it, or else the one before it; the
only element of a list leaves an empty list.  Its import goes with the lines it
stands on.  The text that remains holds the other elements and the other
imports.
-/

namespace Showcase.Registry

/-! ## Chunks without one of them -/

private theorem elementContents_congr {chunks chunks' : List Chunk}
    (same : chunks.map Chunk.tokens = chunks'.map Chunk.tokens) :
    elementContents chunks = elementContents chunks' := by
  induction chunks generalizing chunks' with
  | nil =>
      obtain rfl : chunks' = [] := by simpa using same
      rfl
  | cons chunk chunks ih =>
      cases chunks' with
      | nil => simp at same
      | cons chunk' chunks' =>
          obtain ⟨first, later⟩ := List.cons.inj same
          rw [elementContents, elementContents, first, ih later]

private theorem elementContents_facts {chunks : List Chunk}
    {es : List (Option (List Entry))} (h : elementContents chunks = .ok es) :
    es.length = chunks.length ∧ ∀ chunk ∈ chunks, chunk.tokens ≠ [] := by
  induction chunks generalizing es with
  | nil =>
      cases h
      simp
  | cons chunk chunks ih =>
      rw [elementContents] at h
      split at h
      next => simp at h
      next some =>
        obtain ⟨e, -, rest⟩ := bind_eq_ok_iff.1 h
        obtain ⟨es, later, rfl⟩ := map_eq_ok_iff.1 rest
        obtain ⟨length, others⟩ := ih later
        refine ⟨by simp [length], fun other mem => ?_⟩
        rcases List.mem_cons.1 mem with rfl | mem
        · exact some
        · exact others other mem

namespace Cut

theorem exists_comma {xs ys : List Chunk} {chunk : Chunk}
    (h : Cut (xs ++ chunk :: ys)) :
    ∀ x ∈ xs, ∃ comma, x.comma? = some comma ∧ comma.isPunct ',' = true := by
  induction xs with
  | nil => simp
  | cons x xs ih =>
      intro other mem
      generalize all : x :: xs ++ chunk :: ys = chunks at h
      cases h with
      | nil => simp at all
      | last => simp at all
      | @more _ comma _ _ isComma later =>
          obtain ⟨rfl, rfl⟩ := List.cons.inj all
          rcases List.mem_cons.1 mem with rfl | mem
          · exact ⟨comma, rfl, isComma⟩
          · exact ih later other mem

theorem eq_nil_of_comma {xs ys : List Chunk} {chunk : Chunk}
    (h : Cut (xs ++ chunk :: ys)) (none' : chunk.comma? = none) : ys = [] := by
  cases h.append_right with
  | last => rfl
  | more => simp at none'

theorem without {xs ys : List Chunk} {ts : List Token} {comma : Token}
    (h : Cut (xs ++ ⟨ts, some comma⟩ :: ys)) : Cut (xs ++ ys) := by
  induction xs with
  | nil => exact h.tail
  | cons x xs ih =>
      generalize all : x :: xs ++ ⟨ts, some comma⟩ :: ys = chunks at h
      cases h with
      | nil => simp at all
      | last => simp at all
      | more unbroken isComma later =>
          obtain ⟨rfl, rfl⟩ := List.cons.inj all
          exact .more unbroken isComma (ih later)

private theorem withoutLast {xs : List Chunk} {ts : List Token} {comma : Token}
    {chunk : Chunk} (h : Cut (xs ++ [⟨ts, some comma⟩, chunk]))
    (nonempty : ts ≠ []) : Cut (xs ++ [⟨ts, none⟩]) := by
  induction xs with
  | nil =>
      have all : Cut ([] ++ ⟨ts, some comma⟩ :: [chunk]) := h
      exact .last all.unbroken nonempty
  | cons x xs ih =>
      generalize all : x :: xs ++ [⟨ts, some comma⟩, chunk] = chunks at h
      cases h with
      | nil => simp at all
      | last => simp at all
      | more unbroken isComma later =>
          obtain ⟨rfl, rfl⟩ := List.cons.inj all
          exact .more unbroken isComma (ih later)

end Cut

/-! ## The region of a record -/

namespace Declaration

variable {listName text filler : Text} {d : Declaration} {span region : Span}

/-- Putting `filler` in the place of `span` leaves the list with the elements
`chunks`. -/
structure Cuts (text : Text) (d : Declaration) (span : Span) (filler : Text)
    (region : Span) (chunks : List Chunk) : Prop where
  trims : Trims text span filler region
  start_le : d.opener.start ≤ span.start
  le_stop : span.stop ≤ d.closer.stop
  cut : Cut chunks
  clears : ∃ pre removed post, join d.chunks = pre ++ removed ++ post ∧
    pre ++ post = join chunks ∧
    Clears text (d.front ++ d.opener :: pre) (post ++ d.closer :: d.back) region

private theorem cuts_only
    (located : Located listName d.front d.opener d.chunks d.closer d.back)
    (lexed : Lexed 0 text d.tokens none) (some : join d.chunks ≠ []) :
    d.Cuts text ⟨d.opener.start, d.closer.stop⟩ "[]".toList ⟨d.opener.stop,
      d.closer.start⟩ [] := by
  have clears := Clears.inside_list lexed some located.opener_text
  have opener : (text.take d.opener.stop).drop d.opener.start = ['['] :=
    located.opener_text ▸ lexed.slice_eq
  have closer : (text.take d.closer.stop).drop d.closer.start = [']'] := by
    have lexed' := lexed
    rw [tokens, ← List.cons_append, ← List.append_assoc] at lexed'
    exact located.closer_text ▸ lexed'.slice_eq
  refine ⟨⟨Nat.le_of_lt clears.ordered, ['['], [']'], rfl, ?_, ?_, opener,
    closer⟩, Nat.le_refl _,
    Nat.le_refl _, .nil, [], join d.chunks, [], by simp, rfl, clears⟩
  · simp [Token.stop, located.opener_text]
  · simp [Token.stop, located.closer_text]

private theorem cuts_of_clears {pre removed post : List Token}
    {chunks : List Chunk}
    (clears : Clears text (d.front ++ d.opener :: pre) (post ++ d.closer ::
      d.back) region)
    (split : join d.chunks = pre ++ removed ++ post)
    (rest : pre ++ post = join chunks) (cut : Cut chunks) :
    d.Cuts text region [] region chunks := by
  refine ⟨.refl (Nat.le_of_lt clears.ordered), ?_, ?_, cut, pre, removed, post,
    split, rest, clears⟩
  · have bounds := (clears.before.bounds d.opener (by simp)).2
    have := d.opener.start_lt_stop
    rw [List.length_take] at bounds
    omega
  · have bounds := (clears.after.bounds d.closer (by simp)).1
    have := d.closer.start_lt_stop
    omega

theorem recordOf_eq_some {piece : List Token}
    {comma? previousComma? : Option Span} {record : Record}
    (h : recordOf piece comma? previousComma? = .ok (some record)) :
    record.span = extent piece ∧ record.comma? = comma? ∧
      record.previousComma? = previousComma? := by
  unfold recordOf at h
  split at h
  next => simp at h
  next =>
    obtain ⟨fields, -, made⟩ := map_eq_ok_iff.1 h
    cases made
    exact ⟨rfl, rfl, rfl⟩

/-- A list of chunks without one of them. -/
structure Drops (chunks : List Chunk) (es es' : List (Option (List Entry)))
    (entries : List Entry) (rest : List Chunk) : Prop where
  all : elementContents chunks = .ok (es ++ some entries :: es')
  remaining : elementContents rest = .ok (es ++ es')
  trailing : rest = [] ∨
    (rest.getLast?.bind Chunk.comma?).isSome =
      (chunks.getLast?.bind Chunk.comma?).isSome

namespace Drops

variable {xs ys : List Chunk} {ts ts' : List Token} {comma : Token}
  {es es' : List (Option (List Entry))} {entries : List Entry}

theorem own (cut : Cut (xs ++ ⟨ts, some comma⟩ :: ys))
    (front : elementContents xs = .ok es) (back : elementContents ys = .ok es')
    (nonempty : ts ≠ []) (element : elementOf ts = .ok (some entries)) :
    Drops (xs ++ ⟨ts, some comma⟩ :: ys) es es' entries (xs ++ ys) := by
  refine ⟨elementContents_between front back nonempty element, ?_, ?_⟩
  · rw [elementContents_append, front, ok_bind, back]
    rfl
  · rcases List.eq_nil_or_concat ys with rfl | ⟨ys, y, rfl⟩
    · rcases List.eq_nil_or_concat xs with rfl | ⟨xs, x, rfl⟩
      · exact .inl rfl
      · rw [List.concat_eq_append] at cut ⊢
        obtain ⟨comma', own', -⟩ := cut.exists_comma x (by simp)
        simp [own']
    · rw [List.concat_eq_append, ← List.append_assoc, ← List.cons_append,
        ← List.append_assoc, List.getLast?_concat, List.getLast?_concat]
      exact .inr rfl

theorem last (front : elementContents (xs ++ [⟨ts, some comma⟩]) = .ok es)
    (nonempty : ts' ≠ []) (element : elementOf ts' = .ok (some entries)) :
    Drops (xs ++ [⟨ts, some comma⟩, ⟨ts', none⟩]) es [] entries
      (xs ++ [⟨ts, none⟩]) := by
  refine ⟨?_, ?_, .inr (by simp)⟩
  · have all : elementContents (xs ++ [⟨ts, some comma⟩] ++ [⟨ts', none⟩]) =
        .ok (es ++ [some entries]) :=
          elementContents_between front rfl nonempty element
    rwa [List.append_assoc] at all
  · rw [List.append_nil, ← front]
    exact elementContents_congr (by simp)

end Drops

section RecordCut

variable {doc : Document} {record : Record} {xs ys : List Chunk} {chunk : Chunk}

private theorem cuts_own
    (located : Located listName d.front d.opener d.chunks d.closer d.back)
    (lexed : Lexed 0 text d.tokens none) (paired : pairedReturns text = true)
    {ts : List Token} {comma : Token}
    (shape : d.chunks = xs ++ ⟨ts, some comma⟩ :: ys) (nonempty : ts ≠ []) :
    ∃ region, wholeLines text ⟨(extent ts).start, comma.stop⟩ = .ok region ∧
      d.Cuts text region [] region (xs ++ ys) := by
  have cut := located.cut
  rw [shape] at cut
  obtain ⟨t, ts, rfl⟩ := List.exists_cons_of_ne_nil nonempty
  have whole : d.tokens = d.front ++ d.opener :: join xs ++
      t :: (ts ++ [comma] ++ (join ys ++ d.closer :: d.back)) := by
    simp [tokens, shape, Chunk.all]
  rw [whole] at lexed
  have before : ∀ p ∈ (d.front ++ d.opener :: join xs).getLast?,
      p.text ≠ ['/'] ∧ (p.kind = .name → isNameChar t.first = true) := by
    intro p mem
    rcases List.eq_nil_or_concat xs with rfl | ⟨xs, x, rfl⟩
    · obtain rfl : d.opener = p := by simpa using mem
      refine ⟨by simp [located.opener_text], fun named => ?_⟩
      have opening := located.pair.1
      simp [Token.closer?, named] at opening
    · rw [List.concat_eq_append] at cut mem
      obtain ⟨comma, found, isComma⟩ := cut.exists_comma x (by simp)
      have final : (d.front ++ d.opener :: join (xs ++ [x])).getLast? =
          some comma := by
        have shape : d.front ++ d.opener :: join (xs ++ [x]) =
            d.front ++ d.opener :: (join xs ++ x.tokens) ++ [comma] := by
          simp [Chunk.all, found]
        rw [shape, List.getLast?_concat]
      rw [final] at mem
      obtain rfl := Option.some.inj mem
      simp only [Token.isPunct, Bool.and_eq_true, beq_iff_eq] at isComma
      refine ⟨fun slash => ?_, fun named => ?_⟩
      · have := (List.cons.inj slash).1
        rw [isComma.2] at this
        contradiction
      · simp [isComma.1] at named
  have final : (t :: (ts ++ [comma])).getLast? = some comma := by
    rw [← List.cons_append, List.getLast?_concat]
  obtain ⟨region, lines, clears⟩ := Clears.exists_lines lexed final
    (not_mem_commentBehind (pairedReturns_drop paired _)) fun _ _ _ p mem _ ends =>
      ends.of_notSlash (before p mem).1 fun named => .inl ((before p mem).2 named)
  have split : join d.chunks = join xs ++ (t :: ts ++ [comma]) ++ join ys := by
    simp [shape, Chunk.all]
  exact ⟨region, lines,
    cuts_of_clears clears split (join_append xs ys).symm cut.without⟩

private theorem cuts_previous
    (located : Located listName d.front d.opener d.chunks d.closer d.back)
    (lexed : Lexed 0 text d.tokens none) {ts ts' : List Token} {comma : Token}
    (shape : d.chunks = xs ++ [⟨ts, some comma⟩, ⟨ts', none⟩])
    (nonempty : ts ≠ []) (nonempty' : ts' ≠ [])
    (leaves : LeavesSlash ts.getLast?.toList text ⟨comma.start,
      (extent ts').stop⟩) :
    d.Cuts text ⟨comma.start, (extent ts').stop⟩ [] ⟨comma.start, (extent ts').stop⟩
      (xs ++ [⟨ts, none⟩]) := by
  have cut := located.cut
  rw [shape] at cut
  have whole : d.tokens = d.front ++ d.opener :: (join xs ++ ts) ++
      comma :: (ts' ++ d.closer :: d.back) := by
    simp [tokens, shape, Chunk.all]
  rw [whole] at lexed
  have final : (comma :: ts').getLast? = ts'.getLast? := by
    obtain ⟨t, ts', rfl⟩ := List.exists_cons_of_ne_nil nonempty'
    rw [List.getLast?_cons_cons]
  obtain ⟨stop, last'⟩ : ∃ t, ts'.getLast? = some t :=
    ⟨_, List.getLast?_eq_some_getLast nonempty'⟩
  have reach : (extent ts').stop = stop.stop := by simp [extent, last']
  have split : join d.chunks = join xs ++ ts ++ comma :: ts' ++ [] := by
    simp [shape, Chunk.all]
  have rest : join xs ++ ts ++ [] = join (xs ++ [⟨ts, none⟩]) := by
    simp [Chunk.all]
  rw [reach] at leaves ⊢
  have before :
      LeavesSlash (d.front ++ d.opener :: (join xs ++ ts)).getLast?.toList text
      ⟨comma.start, stop.stop⟩ := by
    obtain ⟨ts, t, rfl⟩ := List.eq_nil_or_concat' ts |>.resolve_left nonempty
    rw [List.getLast?_concat] at leaves
    rwa [← List.append_assoc, ← List.cons_append, ← List.append_assoc,
      List.getLast?_concat]
  exact cuts_of_clears
    (Clears.between lexed (by rw [final, last']) located.pair.closes before)
    split rest (cut.withoutLast nonempty)

/-- What takes the place of a record, and the elements that remain. -/
theorem exists_recordCut {before after : List Record}
    (located : Located listName d.front d.opener d.chunks d.closer d.back)
    (tokens : tokenize text = .ok d.tokens) (scanned : scan text listName = .ok doc)
    (paired : pairedReturns text = true)
    (leaves : ∀ region, recordCut doc record = .ok (region, []) →
      ∀ chunk ∈ d.chunks, LeavesSlash chunk.tokens.getLast?.toList text region)
    (split : doc.records = before ++ record :: after) :
    ∃ span filler region chunks es es' entries, recordCut doc record =
      .ok (span, filler) ∧
      d.Cuts text span filler region chunks ∧ Drops d.chunks es es' entries chunks ∧
      recordsOf es = before.map Record.content ∧
      recordsOf es' = after.map Record.content := by
  have lexed := tokenize_eq_ok_iff.1 tokens
  rw [scan_eq tokens located] at scanned
  obtain ⟨read, found, scanned⟩ := bind_eq_ok_iff.1 scanned
  obtain ⟨imports, -, rfl⟩ := map_eq_ok_iff.1 scanned
  obtain ⟨xs, ⟨ts, comma?⟩, ys, es, entries, es', shape, isRecord, first, element,
    last, before', after', -⟩ := exists_chunk found split
  obtain ⟨span, own, previous⟩ := recordOf_eq_some isRecord
  obtain ⟨all, contents, -, count⟩ := exists_contents found
  obtain ⟨size, full⟩ := elementContents_facts contents
  have nonempty : ts ≠ [] := full ⟨ts, comma?⟩ (by simp [shape])
  have cut := located.cut
  rw [size, shape, List.length_append, List.length_cons] at count
  rw [shape] at cut
  by_cases single : read.count = 1
  · -- the only element, whose list is written anew
    obtain rfl : xs = [] := List.length_eq_zero_iff.1 (by omega)
    obtain rfl : ys = [] := List.length_eq_zero_iff.1 (by omega)
    cases first
    cases last
    have some' : join d.chunks ≠ [] := by simp [shape, Chunk.all, nonempty]
    have only : elementContents ([] ++ [⟨ts, comma?⟩]) =
        .ok ([] ++ [some entries]) :=
      elementContents_between rfl rfl nonempty element
    have drops : Drops d.chunks [] [] entries [] := ⟨shape ▸ only, rfl, .inl rfl⟩
    refine ⟨_, _, _, [], [], [], entries, ?_, cuts_only located lexed some',
      drops, before', after'⟩
    simp [recordCut, single]
  cases comma? with
  | some comma =>
      -- the comma behind the record goes with it
      obtain ⟨region, lines, cuts⟩ := cuts_own located lexed paired shape nonempty
      have own : record.comma? = some comma.span := own
      refine ⟨region, [], region, xs ++ ys, es, es', entries, ?_, cuts,
        shape ▸ .own cut first last nonempty element, before', after'⟩
      simp only [recordCut, single, if_false, own, span]
      exact map_eq_ok_iff.2 ⟨region, lines, rfl⟩
  | none =>
      -- the record is the last one, and the comma before it goes with it
      obtain rfl : ys = [] := cut.eq_nil_of_comma rfl
      cases last
      rcases List.eq_nil_or_concat xs with rfl | ⟨xs, ⟨ts', comma?⟩, rfl⟩
      · exact absurd count single
      rw [List.concat_eq_append] at cut shape previous first
      obtain ⟨comma, found, -⟩ := cut.exists_comma ⟨ts', comma?⟩ (by simp)
      obtain rfl : comma? = some comma := found
      have shape' : d.chunks = xs ++ [⟨ts', some comma⟩, ⟨ts, none⟩] := by
        simp [shape]
      have nonempty' : ts' ≠ [] := full ⟨ts', some comma⟩ (by simp [shape'])
      have own : record.comma? = none := own
      have previous : record.previousComma? = some comma.span := by
        rw [previous, commaBehind, List.getLast?_concat]
        rfl
      have cut {doc : Document} (several : doc.elementCount ≠ 1) :
          recordCut doc record = .ok (⟨comma.start, (extent ts).stop⟩, []) := by
        simp only [recordCut, several, if_false, own, previous, span]
        rfl
      have cuts := cuts_previous located lexed shape' nonempty' nonempty
        (leaves _ (cut single) ⟨ts', some comma⟩ (by simp [shape']))
      exact ⟨_, [], _, xs ++ [⟨ts', none⟩], es, [], entries, cut single, cuts,
        shape' ▸ .last first nonempty element, before', after'⟩

private theorem Orderly.leavesSlash (h : d.Orderly listName) (chunk : Chunk)
    (mem : chunk ∈ d.chunks) :
    LeavesSlash chunk.tokens.getLast?.toList text region :=
  fun t last slash => absurd slash (h.elements chunk mem t (by simpa using last))

theorem Cuts.splice_eq {chunks : List Chunk}
    (cuts : d.Cuts text span filler region chunks)
    (lexed : Lexed 0 text d.tokens none) :
    span.splice text filler = .ok (cutOut region text) := by
  refine cuts.trims.splice_eq (Nat.le_trans cuts.le_stop ?_)
  have := (lexed.bounds d.closer (by simp [tokens])).2
  omega

theorem Cuts.lexed {chunks : List Chunk}
    (cuts : d.Cuts text span filler region chunks) :
    ∃ ts, Lexed 0 (cutOut region text) ts none ∧
      bare ts = bare { d with chunks := chunks }.tokens := by
  obtain ⟨pre, removed, post, -, rest, clears⟩ := cuts.clears
  obtain ⟨ts, lexed, same⟩ := clears.lexed
  refine ⟨ts, lexed, ?_⟩
  rw [same]
  simp [tokens, front, ← rest]

theorem Cuts.sublist {chunks : List Chunk}
    (h : d.Cuts text span filler region chunks) :
    (d.opener :: (join chunks ++ d.closer :: d.back)).Sublist
      (d.opener :: (join d.chunks ++ d.closer :: d.back)) := by
  obtain ⟨pre, removed, post, split, rest, -⟩ := h.clears
  rw [split, ← rest]
  exact (((List.sublist_append_left pre removed).append (.refl post)).append
    (.refl _)).cons_cons _

theorem exists_lines_of_import {front back u : List Token} {s : Statement}
    {t : Token} {statement : Import}
    (lexed : Lexed 0 text (front ++ s.all ++ back) none)
    (paired : pairedReturns text = true) (shape : s.tokens = t :: u)
    (word : t.first = 'i') (read : importOf s = .ok statement)
    (leaves : ∀ lines, wholeLines text statement.span = .ok lines →
      LeavesSlash front.getLast?.toList text lines) :
    ∃ lines, wholeLines text statement.span = .ok lines ∧
      Clears text front back lines := by
  obtain ⟨t₀, source, first, last, -, place, -⟩ := importOf_span read
  obtain rfl : t = t₀ := by simpa [shape] using first
  have whole : front ++ s.all ++ back = front ++ t ::
      (u ++ s.semicolon?.toList ++ back) := by
    simp [Statement.all, shape]
  have final : (t :: (u ++ s.semicolon?.toList)).getLast? =
      some (s.semicolon?.getD source) := by
    rw [← List.cons_append, ← shape]
    cases s.semicolon? <;> simp [last]
  have named : isNameChar t.first = true := by
    rw [word]
    decide
  rw [place] at leaves ⊢
  refine Clears.exists_lines (whole ▸ lexed) final
    (not_mem_commentBehind (pairedReturns_drop paired _))
    fun lines reach _ p mem touches ends => ?_
  by_cases slash : p.text = ['/']
  · have apart := leaves lines reach p (by simpa using mem) slash touches
    cases kind : p.kind with
    | name =>
        rw [kind] at ends
        have := ends t.first rfl
        simp [named] at this
    | string => trivial
    | punct => exact fun _ => apart
  · exact ends.of_notSlash slash fun _ => .inl named

theorem Cuts.exists_cutText_ahead {chunks : List Chunk}
    {front taken x : List Token} {lines : Span} {statement : Import}
    (cuts : d.Cuts text span filler region chunks)
    (lexed : Lexed 0 text d.tokens none) (text_eq : doc.text = text)
    (cut : recordCut doc record = .ok (span, filler))
    (reach : wholeLines text statement.span = .ok lines)
    (ahead : d.front = front ++ taken ++ x)
    (clears : Clears text front (x ++ d.opener ::
      (join d.chunks ++ d.closer :: d.back)) lines) :
    lines.stop ≤ span.start ∧ ∃ ts,
      cutText doc record statement false = .ok (cutOut lines (cutOut region text)) ∧
      Lexed 0 (cutOut lines (cutOut region text)) ts none ∧
      bare ts =
        bare (front ++ (x ++ d.opener :: (join chunks ++ d.closer :: d.back))) ∧
      (pairedReturns text = true →
        pairedReturns (cutOut lines (cutOut region text)) = true) := by
  subst text_eq
  obtain ⟨pre, removed, post, chunks_eq, rest, clears'⟩ := cuts.clears
  have opener := (clears.after.bounds d.opener (by simp)).1
  have behind : x ++ d.opener :: (join d.chunks ++ d.closer :: d.back) =
      x ++ d.opener :: pre ++ (removed ++ (post ++ d.closer :: d.back)) := by
    simp [chunks_eq]
  have front_eq : d.front ++ d.opener :: pre = front ++ taken ++
      (x ++ d.opener :: pre) := by
    simp [ahead]
  rw [behind] at clears
  rw [front_eq] at clears'
  obtain ⟨apart, ts, lexed', same, paired⟩ := clears.both clears' (by simp)
  have ordered := cuts.start_le
  have inside : lines.stop ≤ (cutOut region doc.text).length := by
    have := clears'.ordered
    have := clears'.inside
    rw [cutOut, List.length_append, List.length_take]
    omega
  refine ⟨by omega, ts, ?_, lexed', ?_, paired⟩
  · have later : ¬span.start < lines.start := by
      have := clears.ordered
      omega
    simp only [cutText, cut, ok_bind, reach, Bool.false_eq_true,
      if_false, if_neg later]
    rw [cuts.splice_eq lexed]
    change (lines.splice (cutOut region doc.text) []).mapError Failure.outOfText = _
    rw [Span.splice_eq_ok [] (Nat.le_of_lt clears.ordered) inside, List.append_nil]
    rfl
  · rw [same]
    simp [← rest]

private theorem Cuts.exists_cutText_behind {chunks : List Chunk}
    {taken x back : List Token} {lines : Span} {statement : Import}
    (cuts : d.Cuts text span filler region chunks) (text_eq : doc.text = text)
    (cut : recordCut doc record = .ok (span, filler))
    (reach : wholeLines text statement.span = .ok lines)
    (behind : d.back = x ++ taken ++ back)
    (clears : Clears text (d.front ++ d.opener ::
      (join d.chunks ++ d.closer :: x)) back lines) :
    ∃ ts, cutText doc record statement false =
      .ok (cutOut region (cutOut lines text)) ∧
      Lexed 0 (cutOut region (cutOut lines text)) ts none ∧
      bare ts =
        bare (d.front ++ d.opener :: (join chunks ++ d.closer :: (x ++ back))) ∧
      (pairedReturns text = true →
        pairedReturns (cutOut region (cutOut lines text)) = true) := by
  subst text_eq
  obtain ⟨pre, removed, post, chunks_eq, rest, clears'⟩ := cuts.clears
  have back_eq : post ++ d.closer :: d.back = post ++ d.closer :: x ++
      (taken ++ back) := by
    simp [behind]
  have front_eq : d.front ++ d.opener :: (join d.chunks ++ d.closer :: x) =
      d.front ++ d.opener :: (pre ++ removed) ++ (post ++ d.closer :: x) := by
    simp [chunks_eq]
  have inside := clears.inside
  have ordered := clears.ordered
  have closer := (clears.before.bounds d.closer (by simp)).2
  rw [back_eq] at clears'
  rw [front_eq] at clears
  obtain ⟨apart, ts, lexed, same, paired⟩ := clears'.both clears (by simp)
  rw [List.length_take] at closer
  have stop := cuts.le_stop
  have earlier : span.start < lines.start := by
    obtain ⟨_, _, -, start, -⟩ := cuts.trims.parts
    have := clears'.ordered
    omega
  have take_eq : doc.text.take lines.start =
      (cutOut lines doc.text).take lines.start := by
    rw [cutOut, List.take_append_of_le_length (by rw [List.length_take]; omega),
      List.take_take, Nat.min_self]
  have inside' : span.stop ≤ (cutOut lines doc.text).length := by
    rw [cutOut, List.length_append, List.length_take]
    omega
  refine ⟨ts, ?_, lexed, ?_, paired⟩
  · simp only [cutText, cut, ok_bind, reach, Bool.false_eq_true, if_false,
      if_pos earlier]
    rw [Span.splice_eq_ok [] (Nat.le_of_lt ordered) inside, List.append_nil]
    change (span.splice (cutOut lines doc.text) filler).mapError
      Failure.outOfText = _
    rw [(cuts.trims.congr take_eq (by omega)).splice_eq inside']
    rfl
  · rw [same]
    simp [← rest]

/-- The text without the record and without an import statement. -/
private theorem Orderly.exists_cutText {chunks : List Chunk}
    {earlier later : List Statement} {s : Statement} {statement : Import}
    (h : d.Orderly listName) (lexed : Lexed 0 text d.tokens none)
    (text_eq : doc.text = text) (paired : pairedReturns text = true)
    (found : statements none 0 d.tokens = earlier ++ s :: later)
    (read : importOf s = .ok statement)
    (cut : recordCut doc record = .ok (span, filler))
    (cuts : d.Cuts text span filler region chunks) :
    ∃ new ts d' front back, cutText doc record statement false = .ok new ∧
      Lexed 0 new ts none ∧
      d.Without listName s front back d' ∧
      bare ts = bare { d' with chunks := chunks }.tokens ∧
      pairedReturns new = true ∧
      (statements none 0 d'.tokens).map Statement.tokens =
        (earlier ++ later).map Statement.tokens := by
  subst text_eq
  obtain ⟨-, source, -, last, literal, -, -⟩ := importOf_span read
  obtain ⟨front, t, u, back, d', shape, word, before, without, others⟩ :=
    h.exists_without found lexed.genuine last literal
  have split := without.tokens
  obtain ⟨lines, reach, clears⟩ :=
    exists_lines_of_import (split ▸ lexed) paired shape word read
    fun _ _ p mem slash => absurd slash (before p (by simpa using mem))
  rcases without.side with ⟨x, ahead, made⟩ | ⟨x, behind, made⟩
  · obtain rfl : back = x ++ d.body ++ d.back := by
      rw [tokens_eq, ahead] at split
      simpa using split.symm
    have shape : x ++ d.body ++ d.back =
        x ++ d.name :: d.between ++ d.opener ::
          (join d.chunks ++ d.closer :: d.back) := by
      simp [body]
    have front_eq : d.front = front ++ s.all ++ (x ++ d.name :: d.between) := by
      simp [Declaration.front, ahead]
    rw [shape] at clears
    obtain ⟨-, ts, cut', lexed', same, paired'⟩ :=
      cuts.exists_cutText_ahead lexed rfl cut reach front_eq clears
    refine ⟨_, ts, d', front, _, cut', lexed', without, ?_, paired' paired, others⟩
    rw [same, made]
    simp [tokens, Declaration.front]
  · obtain rfl : front = d.ahead ++ d.body ++ x := by
      rw [tokens_eq, behind, ← List.append_assoc, ← List.append_assoc] at split
      exact (List.append_cancel_right (List.append_cancel_right split)).symm
    have shape : d.ahead ++ d.body ++ x =
        d.front ++ d.opener :: (join d.chunks ++ d.closer :: x) := by
      simp [body, Declaration.front]
    rw [shape] at clears
    obtain ⟨ts, cut', lexed', same, paired'⟩ :=
      cuts.exists_cutText_behind rfl cut reach behind clears
    refine ⟨_, ts, d', _, back, cut', lexed', without, ?_, paired' paired, others⟩
    rw [same, made]
    simp [tokens, Declaration.front]

end RecordCut

/-! ## Reading the text that remains -/

theorem Opens.exists_scan {ts : List Token} {content : Content}
    {imports : List (Text × Option Text × List Text)} (h : d.Opens listName)
    (tokens : tokenize text = .ok ts) (same : bare ts = bare d.tokens)
    (list : contentOf d.chunks = .ok content)
    (found : (importsOf (statements none 0 d.tokens)).map (·.map Import.content) =
      .ok imports) :
    ∃ doc, scan text listName = .ok doc ∧ doc.Says content ∧
      doc.imports.map Import.content = imports := by
  have content_eq : listContent listName ts = .ok content := by
    rw [listContent_congr listName same, Declaration.tokens,
      h.located.listContent_eq, list]
  have imports_eq := importsOf_content (statements_tokens_congr same)
  rw [found] at imports_eq
  obtain ⟨is, found', rfl⟩ := map_eq_ok_iff.1 imports_eq
  obtain ⟨doc, scanned, view, rfl, -⟩ :=
    Registry.exists_scan tokens (h.balanced.of_bare same) content_eq found'
  exact ⟨doc, scanned, view, rfl⟩

/-- Other elements leave the import statements as they are. -/
private theorem Orderly.statements_chunks {d' : Declaration}
    {chunks : List Chunk} (h : d.Orderly listName) (cut : Cut chunks)
    (opens : d'.Opens listName) (opener : d'.opener = d.opener)
    (fewer : ∀ s ∈ statements none 0 d'.tokens,
      s.tokens ∈ (statements none 0 d.tokens).map Statement.tokens) :
    statements none 0 { d' with chunks := chunks }.tokens =
      statements none 0 d'.tokens := by
  refine statements_replace opens.pair opens.cut.balanced cut.balanced
    fun s mem inside => ?_
  obtain ⟨s', mem', same⟩ := List.mem_map.1 (fewer s mem)
  rw [← same, opener] at inside
  exact h.apart s' mem' d.opener inside (by simp [body])

/-- The declaration that is left when the record's chunk goes and, unless it is
shared, the import statement. -/
inductive Left (listName : Text) (d : Declaration) (chunks : List Chunk) :
    Bool → List Statement → Declaration → Prop where
  | shared : Left listName d chunks true (statements none 0 d.tokens) { d with
      chunks := chunks }
  | alone {earlier later : List Statement} {s : Statement} {front back : List Token}
      {d' : Declaration} (found : statements none 0 d.tokens =
        earlier ++ s :: later)
      (without : d.Without listName s front back d') :
      Left listName d chunks false (earlier ++ later) { d' with chunks := chunks }

/-- The text `new` and the declaration `d'` that are left without a record. The
statements that are left say `imports`, and the other elements are those before
the record and those behind it. -/
structure Remains (listName : Text) (d : Declaration)
    (before after : List Record) (imports : List Import) (shared : Bool)
    (new : Text) (ts : List Token) (d' : Declaration)
    (es es' : List (Option (List Entry))) (entries : List Entry) : Prop where
  tokenized : tokenize new = .ok ts
  same : bare ts = bare d'.tokens
  paired : pairedReturns new = true
  left : ∃ ss, d.Left listName d'.chunks shared ss d'
  opens : d'.Opens listName
  imports : (importsOf (statements none 0 d'.tokens)).map (·.map Import.content) =
    .ok (imports.map Import.content)
  drops : Drops d.chunks es es' entries d'.chunks
  earlier : recordsOf es = before.map Record.content
  later : recordsOf es' = after.map Record.content

theorem Orderly.exists_cut {doc : Document} {before after : List Record}
    {record : Record} {is is' : List Import} {statement : Import}
    (h : d.Orderly listName) (tokens : tokenize text = .ok d.tokens)
    (scanned : scan text listName = .ok doc)
    (paired : pairedReturns text = true)
    (records : doc.records = before ++ record :: after)
    (imports : doc.imports = is ++ statement :: is') (shared : Bool) :
    ∃ new ts d' es es' entries, cutText doc record statement shared = .ok new ∧
      d.Remains listName before after (if shared then doc.imports else is ++ is')
        shared new ts d' es es'
        entries := by
  have lexed := tokenize_eq_ok_iff.1 tokens
  obtain ⟨span, filler, region, chunks, es, es', entries, cut, cuts, drops,
      before', after'⟩ :=
    exists_recordCut h.opens.located tokens scanned paired (fun _ _ chunk mem =>
      h.leavesSlash chunk mem) records
  have text_eq := text_of_scan scanned
  rw [scan_eq tokens h.opens.located] at scanned
  obtain ⟨elements, -, scanned⟩ := bind_eq_ok_iff.1 scanned
  obtain ⟨found, read, made⟩ := map_eq_ok_iff.1 scanned
  have same : found = doc.imports := by rw [← made]
  subst same
  have read' : importsOf (statements none 0 d.tokens) =
      .ok (is ++ statement :: is') := by
    rw [← imports]
    exact read
  obtain ⟨earlier, s, later, found, readEarlier, readStatement, readLater⟩ :=
    exists_statement read'
  cases shared with
  | true =>
      obtain ⟨ts, lexed', same⟩ := cuts.lexed
      obtain ⟨_, _, _, -, -, clears⟩ := cuts.clears
      have unchanged := h.statements_chunks cuts.cut h.opens rfl fun _ mem =>
        List.mem_map_of_mem mem
      refine ⟨cutOut region text, ts, { d with chunks := chunks }, es,
        es', entries, ?_,
        ⟨tokenize_eq_ok_iff.2 lexed', same,
          Clears.pairedReturns_cutOut paired (clears.lastInLine paired),
          ⟨_, .shared⟩, h.opens.replace cuts.cut, ?_, drops, before', after'⟩⟩
      · simp only [cutText, cut, ok_bind, if_true, text_eq]
        rw [cuts.splice_eq lexed]
        rfl
      · rw [unchanged]
        exact map_eq_ok_iff.2 ⟨doc.imports, read, rfl⟩
  | false =>
      obtain ⟨new, ts, d', front, back, made, lexed', without, same,
          paired', others⟩ :=
        h.exists_cutText lexed text_eq paired found readStatement cut cuts
      refine ⟨new, ts, { d' with chunks := chunks }, es, es', entries, made,
        ⟨tokenize_eq_ok_iff.2 lexed', same, paired', ⟨_, .alone found without⟩,
          without.opens.replace cuts.cut, ?_, drops, before', after'⟩⟩
      have opener : d'.opener = d.opener := by
        rcases without.side with ⟨x, -, rfl⟩ | ⟨x, -, rfl⟩ <;> rfl
      have fewer : ∀ s' ∈ statements none 0 d'.tokens,
          s'.tokens ∈ (statements none 0 d.tokens).map Statement.tokens := by
        intro s' mem
        have among := List.mem_map_of_mem (f := Statement.tokens) mem
        rw [others] at among
        rw [found]
        refine List.map_subset _ ?_ among
        intro s' mem
        simp only [List.mem_append, List.mem_cons] at mem ⊢
        tauto
      have texts := congrArg (List.map bare) others
      rw [List.map_map, List.map_map] at texts
      have kept := importsOf_content texts
      rw [h.statements_chunks cuts.cut without.opens opener fewer, kept,
        importsOf_append, readEarlier, ok_bind, readLater]
      rfl

end Declaration

/-- A document that says the same as another one, but for one record and some
imports. -/
structure Document.Shortens (old new : Document) (records : List Record)
    (imports : List Import) :
    Prop where
  records : new.records.map Record.content = records.map Record.content
  imports : new.imports.map Import.content = imports.map Import.content
  count : new.elementCount + 1 = old.elementCount
  trailing : new.elementCount = 0 ∨ new.trailingComma = old.trailingComma

/-- A record can be cut out together with its import, and what remains is the
other records. -/
theorem Declaration.Orderly.exists_shortened {listName text : Text}
    {d : Declaration} {doc : Document} {before after : List Record}
    {record : Record} {is is' : List Import} {statement : Import}
    (h : d.Orderly listName) (tokens : tokenize text = .ok d.tokens)
    (scanned : scan text listName = .ok doc)
    (paired : pairedReturns text = true)
    (records : doc.records = before ++ record :: after)
    (imports : doc.imports = is ++ statement :: is') (shared : Bool) :
    ∃ new doc', cutText doc record statement shared = .ok new ∧
      scan new listName = .ok doc' ∧
      doc.Shortens doc' (before ++ after) (if shared then doc.imports else
        is ++ is') := by
  obtain ⟨new, ts, d', es, es', entries, cut, remains⟩ :=
    h.exists_cut tokens scanned paired records imports shared
  have drops := remains.drops
  have list : contentOf d'.chunks =
      .ok ⟨es ++ es', (d'.chunks.getLast?.bind Chunk.comma?).isSome⟩ := by
    rw [contentOf, drops.remaining]
    rfl
  obtain ⟨doc', scanned', view', imports'⟩ :=
    remains.opens.exists_scan remains.tokenized remains.same list remains.imports
  obtain ⟨content, list', view, -, -⟩ := scan_says tokens scanned
  rw [Declaration.tokens, h.opens.located.listContent_eq, contentOf, drops.all]
    at list'
  cases list'
  refine ⟨new, doc', cut, scanned', ?_, imports', ?_, ?_⟩
  · rw [view'.records, recordsOf_append, remains.earlier, remains.later,
      List.map_append]
  · rw [view'.count, view.count]
    simp only [List.length_append, List.length_cons]
    omega
  · rw [view'.count, view'.trailing, view.trailing]
    rcases drops.trailing with none' | same
    · have length := (elementContents_facts drops.remaining).1
      rw [none'] at length
      exact .inl length
    · exact .inr same

end Showcase.Registry

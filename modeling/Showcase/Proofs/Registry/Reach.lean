import Showcase.Proofs.Registry.Placement
import Showcase.Proofs.Registry.WholeLines

/-!
# The regions that a removal takes away

What goes with a record and an import statement are spans over tokens.  Widening
keeps such spans apart, and regions that are apart can be cut out of a text one
after the other, each with its place in the old text (`Widening.apart_iff`,
`cutText_alone`).
-/

namespace Showcase

/-- Whether one span ends before the other starts. -/
def Span.Apart (span other : Span) : Prop :=
  span.stop ≤ other.start ∨ other.stop ≤ span.start

/-- `new` is `text` with `x` in the place of `first` and `y` in the place of
`second`, which stands behind it. -/
def SplicesBoth (text : Text) (first : Span) (x : Text) (second : Span)
    (y new : Text) : Prop :=
  ∃ left middle right, text =
    left ++ (first.slice text ++ (middle ++ (second.slice text ++ right))) ∧
    left.length = first.start ∧ (left ++ (first.slice text ++ middle)).length =
      second.start ∧
    new = left ++ (x ++ (middle ++ (y ++ right)))

/-! ## One cut after the other -/

namespace Span

variable {text x y : Text} {first second : Span}

private theorem drop_start_eq {span : Span} (ordered : span.start ≤ span.stop)
    (text : Text) :
    text.drop span.start = span.slice text ++ text.drop span.stop := by
  have parts := List.take_append_drop (span.stop - span.start)
    (text.drop span.start)
  rw [List.drop_drop, Nat.add_sub_cancel' ordered, ← List.drop_take] at parts
  exact parts.symm

theorem length_slice {span : Span} (inside : span.stop ≤ text.length) :
    (span.slice text).length = span.stop - span.start := by
  rw [slice, List.length_drop, List.length_take_of_le inside]

/-- Where the span behind is cut first, the one before it keeps its place. -/
theorem exists_splicesBoth (ordered : first.start ≤ first.stop)
    (apart : first.stop ≤ second.start) (ordered' : second.start ≤ second.stop)
    (inside : second.stop ≤ text.length) (x y : Text) :
    ∃ cut new, second.splice text y = .ok cut ∧ first.splice cut x = .ok new ∧
      SplicesBoth text first x second y new := by
  let middle : Span := ⟨first.stop, second.start⟩
  have apart' : middle.start ≤ middle.stop := apart
  have inside' : middle.stop ≤ text.length := Nat.le_trans ordered' inside
  have start : (text.take first.start).length = first.start :=
    List.length_take_of_le (by omega)
  have start' : (text.take second.start).length = second.start :=
    List.length_take_of_le (by omega)
  refine ⟨_, _, splice_eq_ok y ordered' inside, splice_eq_ok x ordered ?_,
    text.take first.start, middle.slice text, text.drop second.stop, ?_,
    start, ?_, ?_⟩
  · rw [List.append_assoc, List.length_append, start']
    omega
  · have between : middle.slice text ++ text.drop second.start =
        text.drop first.stop :=
      (drop_start_eq apart' text).symm
    rw [← drop_start_eq ordered', between, ← drop_start_eq ordered,
      List.take_append_drop]
  · rw [List.length_append, List.length_append, start, length_slice (by omega),
      length_slice inside']
    dsimp only [middle]
    omega
  · rw [List.append_assoc (text.take second.start),
      List.take_append_of_le_length (by omega),
      List.take_take, Nat.min_eq_left (by omega),
      List.drop_append_of_le_length (by omega), List.append_assoc]
    rfl

end Span

namespace Registry

/-! ## What goes with a record -/

/-- The span of a record with the comma that goes with it, or of the whole list. -/
def Document.reach? (doc : Document) (record : Record) : Option Span :=
  if doc.elementCount = 1 then some doc.listSpan
  else
    match record.comma?, record.previousComma? with
    | some comma, _ => some ⟨record.span.start, comma.stop⟩
    | none, some comma => some ⟨comma.start, record.span.stop⟩
    | none, none => none

/-- A span over some tokens of a text. -/
def Covers (tokens : List Token) (span : Span) : Prop :=
  ∃ ts, ts.Sublist tokens ∧ ts ≠ [] ∧ span = extent ts

section Reach

variable {text listName filler : Text} {tokens : List Token} {doc : Document}
  {record : Record} {statement : Import} {span reach : Span}

private theorem exists_reach (cut : recordCut doc record = .ok (span, filler)) :
    ∃ reach, doc.reach? record = some reach ∧
      (span = reach ∨ wholeLines doc.text reach = .ok span) := by
  unfold recordCut at cut
  unfold Document.reach?
  split at cut
  next single =>
    obtain ⟨rfl, -⟩ : doc.listSpan = span ∧ _ := by simpa using cut
    exact ⟨doc.listSpan, if_pos single, .inl rfl⟩
  next several =>
    rw [if_neg several]
    cases own : record.comma? with
    | some comma =>
        rw [own] at cut
        obtain ⟨lines, widened, same⟩ := map_eq_ok_iff.1 cut
        obtain ⟨rfl, -⟩ : lines = span ∧ _ := by simpa using same
        exact ⟨_, rfl, .inr widened⟩
    | none =>
        cases previous : record.previousComma? with
        | none => simp [own, previous] at cut
        | some comma =>
            rw [own, previous] at cut
            obtain ⟨rfl, -⟩ : (⟨comma.start, record.span.stop⟩ : Span) = span ∧
              _ := by simpa using cut
            exact ⟨_, rfl, .inl rfl⟩

theorem Covers.ordered (h : Covers tokens span) (lexed : Lexed 0 text tokens none) :
    span.start < span.stop := by
  obtain ⟨ts, sublist, some, rfl⟩ := h
  exact extent_ordered (lexed.pairwise.sublist sublist) some

private theorem Covers.exists_ends (h : Covers tokens span) :
    (∃ t ∈ tokens, t.start = span.start) ∧ ∃ t ∈ tokens, t.stop = span.stop := by
  obtain ⟨ts, sublist, some, rfl⟩ := h
  obtain ⟨t, mem, u, mem', same⟩ := (reaches_extent some).mono fun t mem =>
    sublist.subset mem
  rw [same]
  exact ⟨⟨t, mem, rfl⟩, u, mem', rfl⟩

theorem Covers.inside (h : Covers tokens span) (lexed : Lexed 0 text tokens none) :
    span.stop ≤ text.length := by
  obtain ⟨-, t, mem, stop⟩ := h.exists_ends
  have := (lexed.bounds t mem).2
  omega

private theorem importOf_extent {s : Statement}
    (read : importOf s = .ok statement) :
    s.all ≠ [] ∧ statement.span = extent s.all := by
  obtain ⟨t, source, head, last, -, span, -⟩ := importOf_span read
  obtain ⟨ts, shape⟩ := List.head?_eq_some_iff.1 head
  refine ⟨by simp [Statement.all, shape], ?_⟩
  rw [span, extent, Statement.all]
  cases s.semicolon? with
  | none => simp [head, last]
  | some c =>
      rw [Option.toList_some, List.getLast?_concat, shape]
      rfl

theorem covers_import (scanned : scan text listName = .ok doc)
    (tokenized : tokenize text = .ok tokens) (mem : statement ∈ doc.imports) :
    Covers tokens statement.span := by
  obtain ⟨front, opener, chunks, closer, back, tokenized', located⟩ :=
    exists_located scanned
  obtain rfl := Except.ok.inj (tokenized.symm.trans tokenized')
  rw [scan_eq tokenized located] at scanned
  obtain ⟨elements, -, rest⟩ := bind_eq_ok_iff.1 scanned
  obtain ⟨imports, found, rfl⟩ := map_eq_ok_iff.1 rest
  obtain ⟨before, after, rfl⟩ := List.append_of_mem mem
  obtain ⟨xs, s, ys, split, -, read, -⟩ := exists_statement found
  obtain ⟨some, same⟩ := importOf_extent read
  refine ⟨s.all, List.Sublist.trans ?_ (statements_sublist none 0 _), some, same⟩
  rw [split, List.flatMap_append, List.flatMap_cons]
  exact (List.sublist_append_left _ _).trans (List.sublist_append_right _ _)

theorem covers_reach (scanned : scan text listName = .ok doc)
    (tokenized : tokenize text = .ok tokens) (mem : record ∈ doc.records)
    (found : doc.reach? record = some reach) : Covers tokens reach := by
  obtain ⟨front, opener, chunks, closer, back, tokenized', located⟩ :=
    exists_located scanned
  obtain rfl := Except.ok.inj (tokenized.symm.trans tokenized')
  rw [scan_eq tokenized located] at scanned
  obtain ⟨elements, read, rest⟩ := bind_eq_ok_iff.1 scanned
  obtain ⟨imports, -, rfl⟩ := map_eq_ok_iff.1 rest
  obtain ⟨before, o, inner, c, after, fields, body, -, -, -, -, rfl, -, -⟩ :=
    exists_place located.cut read mem
  have sublist {ts : List Token} (h : ts.Sublist (join chunks)) :
      ts.Sublist (front ++ opener :: (join chunks ++ closer :: back)) :=
    h.trans (((List.sublist_append_left _ _).cons opener).trans
      (List.sublist_append_right _ _))
  unfold Document.reach? at found
  dsimp only at found
  split at found
  next =>
    refine ⟨opener :: (join chunks ++ [closer]), ?_, by simp, ?_⟩
    · refine List.Sublist.trans (List.Sublist.cons_cons opener ?_)
        (List.sublist_append_right _ _)
      exact List.Sublist.append (.refl _) (by simp)
    · rw [← Option.some.inj found, extent, ← List.cons_append, List.getLast?_concat]
      rfl
  next =>
    split at found
    next _ _ comma own =>
      obtain ⟨t, head, rfl⟩ := Option.map_eq_some_iff.1 own
      obtain ⟨after, rfl⟩ := List.head?_eq_some_iff.1 head
      refine ⟨o :: (inner ++ [c, t]), sublist ?_, by simp, ?_⟩
      · rw [body]
        refine List.Sublist.trans (List.Sublist.cons_cons o ?_)
          (List.sublist_append_right _ _)
        exact List.Sublist.append (.refl _) (by simp)
      · have last : (o :: (inner ++ [c, t])).getLast? = some t := by
          rw [List.append_cons, ← List.cons_append, List.getLast?_concat]
        rw [← Option.some.inj found, extent, last]
        rfl
    next comma _ previous =>
      obtain ⟨t, last, rfl⟩ := Option.map_eq_some_iff.1 previous
      obtain ⟨before, rfl⟩ := List.getLast?_eq_some_iff.1 last
      refine ⟨t :: o :: (inner ++ [c]), sublist ?_, by simp, ?_⟩
      · rw [body, List.append_assoc]
        refine List.Sublist.trans ?_ (List.sublist_append_right _ _)
        refine List.Sublist.cons_cons t (List.Sublist.cons_cons o ?_)
        exact List.Sublist.append (.refl _) (by simp)
      · rw [← Option.some.inj found, extent, ← List.cons_append, ← List.cons_append,
          List.getLast?_concat]
        rfl
    next => simp at found

theorem Covers.exists_widened (h : Covers tokens span)
    (lexed : Lexed 0 text tokens none) :
    ∃ region, wholeLines text span = .ok region ∧
      Widening text tokens span region := by
  obtain ⟨-, u, mem, stop⟩ := h.exists_ends
  have ordered := h.ordered lexed
  obtain ⟨region, lines, widened⟩ :=
    lexed.exists_widened mem (show span.start ≤ u.stop by
      rw [stop]; exact Nat.le_of_lt ordered)
  rw [stop] at lines widened
  exact ⟨region, lines, widened⟩

/-- The regions that covered spans are widened to are apart exactly if the spans
are. -/
theorem Widening.apart_iff {span' region region' : Span}
    (lexed : Lexed 0 text tokens none)
    (first : Widening text tokens span region)
    (second : Widening text tokens span' region') (covers : Covers tokens span)
    (covers' : Covers tokens span') :
    region.Apart region' ↔ span.Apart span' := by
  have := first.start_le
  have := first.le_stop
  have := second.start_le
  have := second.le_stop
  obtain ⟨starts, ends⟩ := covers.exists_ends
  obtain ⟨starts', ends'⟩ := covers'.exists_ends
  constructor
  · rintro (behind | ahead)
    · exact .inl (by omega)
    · exact .inr (by omega)
  · rintro (behind | ahead)
    · exact .inl (first.apart lexed second ends starts' behind)
    · exact .inr (second.apart lexed first ends' starts ahead)

end Reach

/-! ## The text without both -/

section CutText

variable {text listName filler : Text} {doc : Document} {record : Record}
  {statement : Import} {span reach : Span}

theorem cutText_shared (ordered : span.start ≤ span.stop)
    (inside : span.stop ≤ doc.text.length)
    (cut : recordCut doc record = .ok (span, filler)) :
    cutText doc record statement true =
      .ok (doc.text.take span.start ++ filler ++ doc.text.drop span.stop) := by
  simp only [cutText, cut, ok_bind, if_true,
    Span.splice_eq_ok filler ordered inside]
  rfl

/-- Whichever of two regions that are apart is cut first, exactly these two are
replaced. -/
theorem cutText_alone {lines : Span}
    (widened : wholeLines doc.text statement.span = .ok lines)
    (cut : recordCut doc record = .ok (span, filler)) (apart : lines.Apart span)
    (ordered : lines.start < lines.stop) (ordered' : span.start < span.stop)
    (inside : lines.stop ≤ doc.text.length)
    (inside' : span.stop ≤ doc.text.length) :
    ∃ new, cutText doc record statement false = .ok new ∧
      (SplicesBoth doc.text lines [] span filler new ∨
        SplicesBoth doc.text span filler lines [] new) := by
  have whole : cutText doc record statement false =
      if span.start < lines.start then
        (lines.splice doc.text []).mapError Failure.outOfText >>= fun text =>
          (span.splice text filler).mapError Failure.outOfText
      else (span.splice doc.text filler).mapError Failure.outOfText >>= fun text =>
          (lines.splice text []).mapError Failure.outOfText := by
    simp only [cutText, cut, ok_bind, widened, Bool.false_eq_true, if_false]
  rcases apart with ahead | behind
  · obtain ⟨between, new, first, second, both⟩ :=
      Span.exists_splicesBoth (Nat.le_of_lt ordered) ahead
      (Nat.le_of_lt ordered') inside' [] filler
    refine ⟨new, ?_, .inl both⟩
    rw [whole, if_neg (by omega), first]
    exact mapError_eq_ok_iff.2 second
  · obtain ⟨between, new, first, second, both⟩ :=
      Span.exists_splicesBoth (Nat.le_of_lt ordered') behind
      (Nat.le_of_lt ordered) inside filler []
    refine ⟨new, ?_, .inr both⟩
    rw [whole, if_pos (by omega), first]
    exact mapError_eq_ok_iff.2 second

theorem exists_widened_of_recordCut {tokens : List Token}
    (scanned : scan text listName = .ok doc)
    (tokenized : tokenize text = .ok tokens) (mem : record ∈ doc.records)
    (cut : recordCut doc record = .ok (span, filler)) :
    ∃ reach, doc.reach? record = some reach ∧ Covers tokens reach ∧
      Widening text tokens reach span := by
  have lexed := tokenize_eq_ok_iff.1 tokenized
  obtain ⟨reach, found, same⟩ := exists_reach cut
  have covers := covers_reach scanned tokenized mem found
  refine ⟨reach, found, covers, ?_⟩
  obtain ⟨region, lines, widened⟩ := covers.exists_widened lexed
  rcases same with rfl | lines'
  · exact .refl (Nat.le_trans widened.le_stop widened.inside)
  · rw [text_of_scan scanned] at lines'
    obtain rfl := Except.ok.inj (lines.symm.trans lines')
    exact widened

end CutText

end Registry

end Showcase

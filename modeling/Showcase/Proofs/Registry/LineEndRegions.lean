import Showcase.Proofs.Registry.LineEndScan
import Showcase.Proofs.Registry.Removal

/-!
# Regions of a text with the other line ends

Where a region of a text stands with the other line ends, it holds the same with
the other line ends.  So replacing it and widening it to whole lines commute
with the change of line ends (`Span.splice_crlf`, `wholeLines_crlf`).
-/

namespace Showcase

/-! ## Positions -/

/-- Where a position of a text is with the other line ends. -/
def crlfPlace (text : Text) (n : Nat) : Nat := (crlf (text.take n)).length

section Places

variable {text : Text} {m n : Nat}

theorem Span.crlf_eq (text : Text) (span : Span) :
    span.crlf text = ⟨crlfPlace text span.start, crlfPlace text span.stop⟩ := rfl

private theorem take_crlfPlace (text : Text) (n : Nat) :
    (crlf text).take (crlfPlace text n) = crlf (text.take n) := by
  have parts : crlf text = crlf (text.take n) ++ crlf (text.drop n) := by
    rw [← crlf_append, List.take_append_drop]
  rw [parts, crlfPlace, List.take_left]

private theorem drop_crlfPlace (text : Text) (n : Nat) :
    (crlf text).drop (crlfPlace text n) = crlf (text.drop n) := by
  have parts : crlf text = crlf (text.take n) ++ crlf (text.drop n) := by
    rw [← crlf_append, List.take_append_drop]
  rw [parts, crlfPlace, List.drop_left]

private theorem crlfPlace_le_length (text : Text) (n : Nat) :
    crlfPlace text n ≤ (crlf text).length := by
  have := congrArg List.length (take_crlfPlace text n)
  rw [List.length_take] at this
  rw [crlfPlace] at this ⊢
  omega

theorem crlfPlace_mono (le : m ≤ n) : crlfPlace text m ≤ crlfPlace text n := by
  have parts : text.take n = text.take m ++ (text.take n).drop m := by
    conv_lhs => rw [← List.take_append_drop m (text.take n)]
    rw [List.take_take, Nat.min_eq_left le]
  rw [crlfPlace, crlfPlace, parts, crlf_append, List.length_append]
  omega

private theorem crlfPlace_append (u v : Text) (n : Nat) :
    crlfPlace (u ++ v) (u.length + n) = (crlf u).length + crlfPlace v n := by
  rw [crlfPlace, List.take_length_add_append, crlf_append, List.length_append]
  rfl

private theorem crlfPlace_length (u v : Text) :
    crlfPlace (u ++ v) u.length = (crlf u).length := by
  rw [crlfPlace, List.take_left]

theorem Span.bounds_of_splice {span : Span} {new result : Text}
    (h : span.splice text new = .ok result) :
    span.start ≤ span.stop ∧ span.stop ≤ text.length := by
  rw [splice, Showcase.splice] at h
  split at h
  next bounds => omega
  next => simp at h

theorem Span.splice_crlf {span : Span} {new result : Text}
    (spliced : span.splice text new = .ok result) :
    (span.crlf text).splice (Showcase.crlf text) (Showcase.crlf new) =
      .ok (Showcase.crlf result) := by
  obtain ⟨ordered, inside⟩ := bounds_of_splice spliced
  rw [splice_eq_ok new ordered inside] at spliced
  obtain rfl := Except.ok.inj spliced
  rw [Span.crlf_eq,
    splice_eq_ok _ (crlfPlace_mono ordered) (crlfPlace_le_length text _)]
  simp only [take_crlfPlace, drop_crlfPlace, crlf_append]

end Places

namespace Registry

/-! ## Whole lines -/

private theorem isPad_inLine {c : Char} (h : isPad c = true) :
    c ≠ '\n' := (isBlank_of_isPad h).2

private theorem crlf_of_isPad {pads : Text}
    (padded : ∀ c ∈ pads, isPad c = true) : crlf pads = pads :=
  crlf_of_oneLine fun mem => isPad_inLine (padded _ mem) rfl

section WholeLines

variable {text : Text}

private theorem getLast?_crlf (text : Text) :
    (crlf text).getLast? = text.getLast? := by
  rcases List.eq_nil_or_concat text with rfl | ⟨text, c, rfl⟩
  · rfl
  · rw [List.concat_eq_append, crlf_append, List.getLast?_concat]
    by_cases isNewline : c = '\n'
    · subst isNewline
      rw [crlf_newline, crlf_nil, List.getLast?_append]
      rfl
    · rw [crlf_cons isNewline, crlf_nil, List.getLast?_concat]

private theorem startsLine_crlf (line : Text) :
    startsLine (crlf line).reverse = startsLine line.reverse := by
  rw [startsLine_reverse, startsLine_reverse, getLast?_crlf]

private theorem head?_crlf (noReturn : '\r' ∉ text) :
    (text.head? = some '\n' ∧ (crlf text).head? = some '\r') ∨
      ((crlf text).head? = text.head? ∧ ∀ c ∈ text.head?, isLineEnd c = false) := by
  cases text with
  | nil => exact .inr ⟨rfl, by simp⟩
  | cons c rest =>
      by_cases isNewline : c = '\n'
      · subst isNewline
        exact .inl ⟨rfl, rfl⟩
      · rw [List.mem_cons, not_or] at noReturn
        rw [crlf_cons isNewline]
        refine .inr ⟨rfl, ?_⟩
        simp [isLineEnd, isNewline, Ne.symm noReturn.1]

private theorem endsLine_crlf (noReturn : '\r' ∉ text) :
    endsLine (crlf text) = endsLine text := by
  have head (text : Text) : endsLine text = text.head?.all isLineEnd := by
    cases text <;> rfl
  rw [head, head]
  rcases head?_crlf noReturn with ⟨here, there⟩ | ⟨same, -⟩
  · rw [here, there]
    rfl
  · rw [same]

private theorem isPrefixOf_crlf {u : Text} (inLine : ∀ c ∈ u, c ≠ '\r' ∧ c ≠ '\n') :
    u.isPrefixOf (crlf text) = u.isPrefixOf text := by
  rw [Bool.eq_iff_iff, List.isPrefixOf_iff_prefix, List.isPrefixOf_iff_prefix]
  constructor
  · rintro ⟨later, same⟩
    obtain ⟨rest, rfl, -⟩ := exists_of_crlf_eq_append same.symm inLine
    exact List.prefix_append u rest
  · rintro ⟨rest, rfl⟩
    rw [crlf_append, crlf_of_oneLine fun mem => (inLine _ mem).2 rfl]
    exact List.prefix_append u _

private theorem comment_crlf {comment later : Text} {counts : Bool}
    (noReturn : '\r' ∉ later)
    (ends : comment ≠ [] → counts = true ∧ endsLine later = true)
    (h : comment = if counts && "//".toList.isPrefixOf (comment ++ later) then
      (comment ++ later).takeWhile (!isLineEnd ·) else []) :
    comment = if counts && "//".toList.isPrefixOf (comment ++ crlf later) then
      (comment ++ crlf later).takeWhile (!isLineEnd ·) else [] := by
  have slashes : ∀ c ∈ "//".toList, c ≠ '\r' ∧ c ≠ '\n' := by decide
  cases comment with
  | nil =>
      rw [List.nil_append] at h ⊢
      rw [isPrefixOf_crlf slashes]
      split at h
      next isComment =>
        obtain ⟨-, start⟩ := Bool.and_eq_true_iff.1 isComment
        obtain ⟨rest, rfl⟩ := List.isPrefixOf_iff_prefix.1 start
        simp [isLineEnd] at h
      next notComment => rw [if_neg notComment]
  | cons c body =>
      obtain ⟨rfl, behind⟩ := ends (by simp)
      split at h
      next isComment =>
        have inLine : ∀ d ∈ c :: body, (!isLineEnd d) = true := fun d mem => by
          rw [h] at mem
          exact List.mem_takeWhile_imp (p := fun e => !isLineEnd e) mem
        have start : "//".toList.isPrefixOf (c :: body ++ crlf later) = true := by
          have same : c :: body ++ crlf later = crlf (c :: body ++ later) := by
            rw [crlf_append, crlf_of_oneLine fun mem =>
              absurd (inLine _ mem) (by decide)]
          rw [same, isPrefixOf_crlf slashes]
          exact (Bool.and_eq_true_iff.1 isComment).2
        rw [if_pos (by rw [start]; rfl)]
        refine (takeWhile_append_of_ends inLine fun d head => ?_).symm
        rw [← endsLine_crlf noReturn] at behind
        cases shape : crlf later with
        | nil => simp [shape] at head
        | cons e rest =>
            rw [shape] at head behind
            cases head
            simpa [endsLine] using behind
      next => simp at h

private theorem lineEnd_crlf (noReturn : '\r' ∉ text)
    (ends : endsLine text = true) :
    lineEnd (crlf text) = crlfPlace text (lineEnd text) := by
  cases text with
  | nil => rfl
  | cons c rest =>
      obtain rfl : c = '\n' := by
        rw [List.mem_cons, not_or] at noReturn
        simpa [endsLine, isLineEnd, Ne.symm noReturn.1] using ends
      rfl

/-- A text around a region: the line before it with its indentation, what is in
it, and the spaces and the comment behind it. -/
structure Laid (text : Text) (span : Span)
    (line indent mid pads comment later : Text) : Prop where
  text_eq : text = line ++ indent ++ (mid ++ (pads ++ (comment ++ later)))
  start : span.start = (line ++ indent).length
  stop : span.stop = (line ++ indent ++ mid).length
  indented : ∀ c ∈ indent, isPad c = true
  above : ∀ c ∈ line.getLast?, isPad c = false
  padded : ∀ c ∈ pads, isPad c = true
  stops : ∀ c ∈ (comment ++ later).head?, isPad c = false
  isComment : IsComment comment
  ends : comment ≠ [] → startsLine line.reverse = true ∧ endsLine later = true
  comment_eq : comment =
    if startsLine line.reverse && "//".toList.isPrefixOf (comment ++ later) then
      (comment ++ later).takeWhile (!isLineEnd ·)
    else []

private theorem exists_laid {span : Span} (ordered : span.start ≤ span.stop)
    (inside : span.stop ≤ text.length) :
    ∃ line indent mid pads comment later,
      Laid text span line indent mid pads comment later := by
  obtain ⟨line, indent, before, indented, above⟩ :=
    exists_indent (text.take span.start)
  obtain ⟨pads, rest, after, -, padded, stops⟩ :=
    exists_of_takeWhile isPad (text.drop span.stop)
  obtain ⟨comment, later, rfl, isComment, same, ends⟩ :=
    exists_comment (startsLine line.reverse) rest
  obtain ⟨mid, upTo⟩ : ∃ mid, text.take span.stop = line ++ indent ++ mid := by
    refine ⟨(text.take span.stop).drop span.start, ?_⟩
    rw [← before, ← Nat.min_eq_left ordered, ← List.take_take,
      Nat.min_eq_left ordered, List.take_append_drop]
  refine ⟨line, indent, mid, pads, comment, later, ?_, ?_, ?_, indented, above,
    padded, stops, isComment, ends, same⟩
  · rw [← after, ← List.append_assoc, ← upTo, List.take_append_drop]
  · rw [← before, List.length_take_of_le (by omega)]
  · rw [← upTo, List.length_take_of_le inside]

namespace Laid

variable {span : Span} {line indent mid pads comment later : Text}

theorem wholeLines_eq (h : Laid text span line indent mid pads comment later) :
    wholeLines text span =
      if startsLine line.reverse && endsLine later then
        .ok ⟨line.length, (line ++ indent ++ mid ++ (pads ++ comment)).length +
          lineEnd later⟩
      else .ok ⟨(line ++ indent).length,
        (line ++ indent ++ mid ++ (pads ++ comment)).length⟩ := by
  have place :
      span = ⟨(line ++ indent).length, (line ++ indent ++ mid).length⟩ := by
    rw [← h.start, ← h.stop]
  rw [place, h.text_eq]
  exact Registry.wholeLines_eq mid h.indented h.above h.padded h.stops h.comment_eq

private theorem crlf_gap (h : Laid text span line indent mid pads comment later) :
    Showcase.crlf (pads ++ comment) = pads ++ comment := by
  rw [crlf_append, crlf_of_isPad h.padded,
    crlf_of_oneLine h.isComment.newline_notMem]

theorem crlf_eq (h : Laid text span line indent mid pads comment later) :
    Showcase.crlf text = Showcase.crlf line ++ indent ++
      (Showcase.crlf mid ++ (pads ++ (comment ++ Showcase.crlf later))) := by
  rw [h.text_eq, crlf_append, crlf_append, crlf_append, ← List.append_assoc pads,
    crlf_append, h.crlf_gap, crlf_of_isPad h.indented, List.append_assoc pads]

private theorem place_start
    (h : Laid text span line indent mid pads comment later) :
    crlfPlace text (line ++ indent).length =
      (Showcase.crlf line ++ indent).length := by
  rw [h.text_eq, crlfPlace_length, crlf_append, crlf_of_isPad h.indented]

private theorem place_stop (h : Laid text span line indent mid pads comment later) :
    crlfPlace text (line ++ indent ++ mid).length =
      (Showcase.crlf line ++ indent ++ Showcase.crlf mid).length := by
  rw [h.text_eq, ← List.append_assoc, crlfPlace_length, crlf_append, crlf_append,
    crlf_of_isPad h.indented]

private theorem place_later
    (h : Laid text span line indent mid pads comment later) (n : Nat) :
    crlfPlace text ((line ++ indent ++ mid ++ (pads ++ comment)).length + n) =
      (Showcase.crlf line ++ indent ++ Showcase.crlf mid ++
        (pads ++ comment)).length +
        crlfPlace later n := by
  rw [h.text_eq, ← List.append_assoc pads, ← List.append_assoc,
    ← List.append_assoc, crlfPlace_append,
    crlf_append, crlf_append, crlf_append, h.crlf_gap, crlf_of_isPad h.indented]

theorem crlf (h : Laid text span line indent mid pads comment later)
    (noReturn : '\r' ∉ later) :
    Laid (Showcase.crlf text) (span.crlf text) (Showcase.crlf line) indent
      (Showcase.crlf mid) pads comment (Showcase.crlf later) where
  text_eq := h.crlf_eq
  start := by rw [Span.crlf_eq, h.start, h.place_start]
  stop := by rw [Span.crlf_eq, h.stop, h.place_stop]
  indented := h.indented
  above := by
    rw [getLast?_crlf]
    exact h.above
  padded := h.padded
  stops := by
    have stops := h.stops
    cases comment with
    | cons d body => exact stops
    | nil =>
        rcases head?_crlf noReturn with ⟨-, there⟩ | ⟨same, -⟩
        · rw [List.nil_append, there]
          rintro _ ⟨⟩
          rfl
        · rw [List.nil_append, same]
          exact stops
  isComment := h.isComment
  ends := by
    rw [startsLine_crlf, endsLine_crlf noReturn]
    exact h.ends
  comment_eq := by
    rw [startsLine_crlf]
    exact comment_crlf noReturn h.ends h.comment_eq

end Laid

theorem wholeLines_crlf {span : Span} (noReturn : '\r' ∉ text)
    (ordered : span.start ≤ span.stop) (inside : span.stop ≤ text.length) :
    wholeLines (crlf text) (span.crlf text) =
      (wholeLines text span).map (Span.crlf text) := by
  obtain ⟨line, indent, mid, pads, comment, later, laid⟩ :=
    exists_laid ordered inside
  have noReturn' : '\r' ∉ later := fun mem =>
    noReturn (by rw [laid.text_eq]; simp [mem])
  rw [laid.wholeLines_eq, (laid.crlf noReturn').wholeLines_eq, startsLine_crlf,
    endsLine_crlf noReturn']
  split
  next alone =>
    have atLine : crlfPlace text line.length = (crlf line).length := by
      rw [laid.text_eq, List.append_assoc, crlfPlace_length]
    rw [lineEnd_crlf noReturn' (Bool.and_eq_true_iff.1 alone).2,
      ← laid.place_later, ← atLine]
    rfl
  next =>
    have reached :
        crlfPlace text (line ++ indent ++ mid ++ (pads ++ comment)).length =
          (crlf line ++ indent ++ crlf mid ++ (pads ++ comment)).length :=
          laid.place_later 0
    rw [← laid.place_start, ← reached]
    rfl

end WholeLines

end Registry

end Showcase

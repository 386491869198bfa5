import Showcase.Proofs.Registry.Cutting

/-!
# Cutting whole lines

`wholeLines` and `tokenize` decide by rules of their own where a comment and a
line end: `wholeLines` also stops at a carriage return, `tokenize` only at a
line feed.  Where the two agree on the comment behind a run of tokens, the run's
whole lines can be cut out of a text and the other tokens stay
(`tokenize_cutLines`).
-/

namespace Showcase.Registry

private theorem Token.Genuine.last_notBlank {t : Token} (h : t.Genuine) :
    ∀ c ∈ t.text.getLast?, isBlank c = false := by
  intro c last
  cases blank : isBlank c with
  | false => rfl
  | true => exact absurd (Lexeme.eq_blank_or_comment h last blank).1 (by simp)

private theorem Lexed.getLast?_take {text : Text} {front back : List Token}
    {t : Token} (h : Lexed 0 text (front ++ t :: back) none) :
    (text.take t.stop).getLast? = t.text.getLast? := by
  have parts := List.take_append_drop t.start (text.take t.stop)
  rw [h.slice_eq] at parts
  rw [← parts, List.getLast?_append_of_ne_nil _ (by simp [Token.text])]

private theorem Lexed.stop_ne_of_indented {text : Text}
    {front back : List Token} {p : Token} {n : Nat}
    (h : Lexed 0 text (front ++ p :: back) none)
    (indented : endsLine ((text.take n).reverse.dropWhile isPad) = true) :
    p.stop ≠ n := by
  rintro rfl
  have last := h.getLast?_take
  obtain ⟨c, ending⟩ : ∃ c, p.text.getLast? = some c :=
    ⟨_, List.getLast?_eq_some_getLast (by simp [Token.text])⟩
  have notBlank := (h.genuine p (by simp)).last_notBlank c ending
  rw [ending, ← List.head?_reverse] at last
  obtain ⟨rest, shape⟩ := List.head?_eq_some_iff.1 last
  have notPad : isPad c = false := by
    cases pad : isPad c with
    | false => rfl
    | true => simp [(isBlank_of_isPad pad).1] at notBlank
  rw [shape, List.dropWhile_cons_of_neg (by simp [notPad])] at indented
  simp only [endsLine, isLineEnd, Bool.or_eq_true, beq_iff_eq] at indented
  rcases indented with rfl | rfl <;> exact absurd notBlank (by decide)

/-! ## How far whole lines reach -/

/-- A region that a span has been widened to.  It takes no token besides those
of the span, it starts with the span or with a line, and it holds no line feed
but its last character. -/
structure Widening (text : Text) (tokens : List Token) (span region : Span) :
    Prop where
  start_le : region.start ≤ span.start
  le_stop : span.stop ≤ region.stop
  inside : region.stop ≤ text.length
  before : ∀ p ∈ tokens, p.stop ≤ span.start → p.stop ≤ region.start
  behind : ∀ n ∈ tokens, span.stop ≤ n.start → region.stop ≤ n.start
  start : region.start = span.start ∨ ∀ c ∈ (text.take region.start).getLast?,
    c = '\n'
  stop : ∀ n, span.stop < n → (text.take n).getLast? = some '\n' → region.stop ≤ n

theorem Widening.refl {text : Text} {tokens : List Token} {span : Span}
    (inside : span.stop ≤ text.length) : Widening text tokens span span :=
  ⟨Nat.le_refl _, Nat.le_refl _, inside, fun _ _ le => le, fun _ _ le => le,
    .inl rfl, fun _ lt _ => Nat.le_of_lt lt⟩

section Regions

variable {text : Text} {tokens : List Token} {t last : Token}

private theorem Lexed.notBlank_of_stop (lexed : Lexed 0 text tokens none)
    (mem : t ∈ tokens) :
    ∀ c ∈ (text.take t.stop).getLast?, isBlank c = false := by
  obtain ⟨front, back, rfl⟩ := List.append_of_mem mem
  rw [lexed.getLast?_take]
  exact (lexed.genuine t mem).last_notBlank

private theorem Lexed.exists_behind (lexed : Lexed 0 text tokens none)
    (mem : last ∈ tokens) :
    ∃ back, Lexed last.stop (text.drop last.stop) back none ∧
      last.stop ≤ text.length ∧
      ∀ n ∈ tokens, last.stop ≤ n.start → n ∈ back := by
  obtain ⟨front, back, rfl⟩ := List.append_of_mem mem
  have row := List.pairwise_append.1 lexed.pairwise
  have within := (lexed.bounds last mem).2
  rw [Nat.zero_add] at within
  have atLast := lexed
  rw [← List.nil_append back] at atLast
  obtain ⟨left, middle, after, rfl, -, stop, -, -, -, later⟩ := atLast.window
  have stop := stop last rfl
  rw [Nat.zero_add] at stop later
  rw [stop] at within ⊢
  have behind_eq : (left ++ (middle ++ after)).drop (left ++ middle).length =
      after := by
    rw [← List.append_assoc, List.drop_left]
  rw [behind_eq]
  refine ⟨back, later, within, fun n inside le => ?_⟩
  rw [← stop] at le
  have := n.start_lt_stop
  have := last.start_lt_stop
  rcases List.mem_append.1 inside with ahead | inside
  · have := row.2.2 n ahead last (by simp)
    omega
  · rcases List.mem_cons.1 inside with rfl | inside
    · omega
    · exact inside

private theorem Lexed.stop_le_of_pads {line indent : Text} {low : Nat}
    (lexed : Lexed 0 text tokens none) (ahead : text.take low = line ++ indent)
    (pads : ∀ c ∈ indent, isPad c = true) (mem : t ∈ tokens)
    (le : t.stop ≤ low) : t.stop ≤ line.length := by
  refine Classical.byContradiction fun inside => ?_
  have within := (lexed.bounds t mem).2
  have shape : text.take t.stop = line ++ indent.take (t.stop - line.length) := by
    have upTo : text.take t.stop = (text.take low).take t.stop := by
      rw [List.take_take, Nat.min_eq_left le]
    rw [upTo, ahead, List.take_append, List.take_of_length_le (by omega)]
  obtain ⟨c, ending⟩ : ∃ c, (indent.take (t.stop - line.length)).getLast? =
      some c := by
    refine ⟨_, List.getLast?_eq_some_getLast fun none' => ?_⟩
    have sizes := congrArg List.length shape
    rw [none', List.append_nil, List.length_take] at sizes
    omega
  have notBlank := lexed.notBlank_of_stop mem c (by
    rw [shape, List.getLast?_append, ending]
    rfl)
  have pad := pads c (List.take_subset _ _ (List.mem_of_getLast? ending))
  simp [(isBlank_of_isPad pad).1] at notBlank

private theorem le_of_oneLine {tail rest : Text} {m n : Nat}
    (within : m ≤ text.length) (behind : text.drop m = tail ++ rest)
    (oneLine : '\n' ∉ tail.dropLast) (lt : m < n)
    (feed : (text.take n).getLast? = some '\n') : m + tail.length ≤ n := by
  refine Classical.byContradiction fun inside => ?_
  have upTo : (text.take m).length = m := List.length_take_of_le within
  have shape : text.take n = text.take m ++ tail.take (n - m) := by
    have parts : text = text.take m ++ (tail ++ rest) := by
      rw [← behind, List.take_append_drop]
    conv_lhs => rw [parts]
    rw [List.take_append, upTo, List.take_of_length_le (by omega),
      List.take_append_of_le_length (by omega)]
  have some' : tail.take (n - m) ≠ [] := by
    intro none'
    have sizes := congrArg List.length none'
    rw [List.length_take, List.length_nil] at sizes
    omega
  rw [shape, List.getLast?_append_of_ne_nil _ some'] at feed
  refine oneLine ?_
  rw [List.dropLast_eq_take]
  exact (List.take_subset_take_left _ (by omega)) (List.mem_of_getLast? feed)

theorem Lexed.exists_widened {low : Nat} (lexed : Lexed 0 text tokens none)
    (final : last ∈ tokens) (ordered : low ≤ last.stop) :
    ∃ region, wholeLines text ⟨low, last.stop⟩ = .ok region ∧
      Widening text tokens ⟨low, last.stop⟩ region := by
  obtain ⟨back, later, within, isBehind⟩ := lexed.exists_behind final
  obtain ⟨line, indent, tail, rest, widens⟩ :=
    exists_widens (text.take low) ((text.take last.stop).drop low)
    (text.drop last.stop)
  have upTo : text.take low ++ (text.take last.stop).drop low =
      text.take last.stop := by
    have parts := List.take_append_drop low (text.take last.stop)
    rwa [List.take_take, Nat.min_eq_left ordered] at parts
  have whole : text.take low ++
      ((text.take last.stop).drop low ++ text.drop last.stop) = text := by
    rw [← List.append_assoc, upTo, List.take_append_drop]
  have start : (text.take low).length = low := List.length_take_of_le (by omega)
  have stop : (text.take last.stop).length = last.stop :=
    List.length_take_of_le within
  have lines := widens.lines
  rw [whole, upTo, start, stop, List.length_append, stop] at lines
  have ahead := widens.ahead
  have behind := widens.behind
  have reach : line.length + indent.length = low := by
    rw [← start, ahead, List.length_append]
  have size : last.stop + tail.length + rest.length = text.length := by
    have sizes := congrArg List.length behind
    rw [List.length_drop, List.length_append] at sizes
    omega
  have line_eq : text.take line.length = line := by
    have : text.take line.length = (text.take low).take line.length := by
      rw [List.take_take, Nat.min_eq_left (by omega)]
    rw [this, ahead, List.take_left]
  refine ⟨_, lines, ?_, ?_, ?_, ?_, ?_, ?_, ?_⟩
  · exact reach ▸ Nat.le_add_right _ _
  · exact Nat.le_add_right _ _
  · exact size ▸ Nat.le_add_right _ _
  · intro p mem le
    rcases widens.start with rfl | ⟨pads, -⟩
    · simpa [← reach] using le
    · exact lexed.stop_le_of_pads ahead pads mem le
  · intro n mem le
    rw [behind] at later
    exact widens.free _ _ _ _ later n (isBehind n mem le)
  · rcases widens.start with rfl | ⟨-, above⟩
    · exact .inl (by simpa using reach)
    · exact .inr (by rwa [line_eq])
  · exact fun n lt feed => le_of_oneLine within behind widens.oneLine lt feed

theorem Widening.apart {span span' region region' : Span}
    (lexed : Lexed 0 text tokens none)
    (first : Widening text tokens span region)
    (second : Widening text tokens span' region')
    (reaches : ∃ p ∈ tokens, p.stop = span.stop)
    (starts : ∃ n ∈ tokens, n.start = span'.start)
    (behind : span.stop ≤ span'.start) : region.stop ≤ region'.start := by
  obtain ⟨p, inside, stop⟩ := reaches
  obtain ⟨n, inside', start⟩ := starts
  have beyond : p.stop ≤ region'.start := second.before p inside (by omega)
  rcases second.start with same | above
  · rw [same, ← start]
    exact first.behind n inside' (by omega)
  have positive := p.start_lt_stop
  have within := (lexed.bounds p inside).2
  obtain ⟨c, last⟩ : ∃ c, (text.take region'.start).getLast? = some c := by
    refine ⟨_, List.getLast?_eq_some_getLast fun none' => ?_⟩
    have := congrArg List.length none'
    rw [List.length_take, List.length_nil] at this
    omega
  obtain rfl := above c last
  -- the line feed is no part of the token, so it stands behind it
  have apart : p.stop ≠ region'.start := by
    intro same
    have := lexed.notBlank_of_stop inside '\n' (by rw [same, last]; rfl)
    exact absurd this (by decide)
  exact first.stop _ (by omega) last

end Regions

/-! ## Cutting them out -/

/-- Cutting out the whole lines of a run of tokens, with only spaces before it
on its line, leaves the other tokens as they are.  The comment behind the run
must hold no carriage return but at its end. -/
theorem tokenize_cutLines {text : Text} {front run behind : List Token}
    {first last : Token} (tokens : tokenize text = .ok (front ++ run ++ behind))
    (starts : run.head? = some first) (ends : run.getLast? = some last)
    (indented : endsLine ((text.take first.start).reverse.dropWhile isPad) = true)
    (closed : '\r' ∉ (commentBehind (text.drop last.stop)).dropLast) :
    ∃ region new remaining, wholeLines text ⟨first.start, last.stop⟩ = .ok region ∧
      region.splice text [] = .ok new ∧ tokenize new = .ok remaining ∧
      remaining.map Token.bare = (front ++ behind).map Token.bare := by
  obtain ⟨run, rfl⟩ := List.head?_eq_some_iff.1 starts
  have lexed := tokenize_eq_ok_iff.1 tokens
  rw [List.append_assoc, List.cons_append] at lexed
  have apart : ∀ p ∈ front, p.stop ≠ first.start := by
    intro p mem
    obtain ⟨left, right, rfl⟩ := List.append_of_mem mem
    rw [List.append_assoc, List.cons_append] at lexed
    exact lexed.stop_ne_of_indented indented
  obtain ⟨region, lines, clears⟩ := Clears.exists_lines lexed ends closed
    fun region _ start p mem touches _ =>
      absurd (touches.trans start) (apart p (List.mem_of_getLast? mem))
  obtain ⟨remaining, read, same⟩ := clears.lexed
  refine ⟨region, cutOut region text, remaining, lines, ?_,
    tokenize_eq_ok_iff.2 read, same⟩
  rw [Span.splice_eq_ok [] (Nat.le_of_lt clears.ordered) clears.inside,
    List.append_nil]
  rfl

def indentedLine : Text := "a\n  b, // c\r\nd".toList

theorem tokenize_cutLines_indentedLine :
    tokenize indentedLine =
        .ok ([.name 'a' [] 0] ++ [.name 'b' [] 4, .punct ',' 5] ++
          [.name 'd' [] 13]) ∧
      endsLine ((indentedLine.take 4).reverse.dropWhile isPad) = true ∧
      '\r' ∉ (commentBehind (indentedLine.drop 6)).dropLast ∧
      ∃ region new remaining, wholeLines indentedLine ⟨4, 6⟩ = .ok region ∧
        region.splice indentedLine [] = .ok new ∧ tokenize new = .ok remaining ∧
        remaining.map Token.bare = [.name 'a' [] 0, .name 'd' [] 0] := by
  have tokens : tokenize indentedLine =
      .ok ([.name 'a' [] 0] ++ [.name 'b' [] 4, .punct ',' 5] ++
        [.name 'd' [] 13]) := by decide +kernel
  have indented : endsLine ((indentedLine.take 4).reverse.dropWhile isPad) =
    true := by decide
  have closed : '\r' ∉ (commentBehind (indentedLine.drop 6)).dropLast := by decide
  exact ⟨tokens, indented, closed, tokenize_cutLines tokens rfl rfl indented closed⟩

/-! ## A carriage return inside a comment -/

def loneReturn : Text := "a // x\rb\nc".toList

/-- The line feed ends the comment, but the line is cut at the carriage return,
and what was behind it in the comment becomes a token. -/
theorem cutLines_loneReturn_exposes :
    tokenize loneReturn = .ok ([] ++ [.name 'a' [] 0] ++ [.name 'c' [] 9]) ∧
      endsLine ((loneReturn.take 0).reverse.dropWhile isPad) = true ∧
      wholeLines loneReturn ⟨0, 1⟩ = .ok ⟨0, 7⟩ ∧
      Span.splice ⟨0, 7⟩ loneReturn [] = .ok "b\nc".toList ∧
      tokenize "b\nc".toList = .ok [.name 'b' [] 0, .name 'c' [] 2] ∧
      ([.name 'b' [] 0, .name 'c' [] 2] : List Token).map Token.bare ≠
        ([] ++ [.name 'c' [] 9] : List Token).map Token.bare := by
  refine ⟨?_, ?_, ?_, ?_, ?_, ?_⟩ <;> decide +kernel

end Showcase.Registry

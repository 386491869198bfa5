import Showcase.Proofs.Registry.Gaps

/-!
# Regions that can be cut out

Cutting a region out of a text keeps the tokens before and behind it if the text
before the region may be followed by what stands behind (`Clears`).  Regions widened
to whole lines are of this kind, and so are those between two tokens.  Two such
regions can be cut out one after the other.
-/

namespace Showcase.Registry

/-! ## Line ends where texts are joined -/

theorem pairedReturns_append {left right rest : Text}
    (h : pairedReturns (left ++ rest) = true)
    (behind : pairedReturns right = true) (last : left.getLast? ≠ some '\r') :
    pairedReturns (left ++ right) = true := by
  induction left with
  | nil => exact behind
  | cons c left ih =>
      obtain ⟨next, later⟩ := pairedReturns_cons h
      have rest := ih later (by cases left <;> simp_all)
      rw [List.cons_append, pairedReturns.eq_def]
      split
      next isReturn same =>
        obtain ⟨rfl, rfl⟩ := List.cons.inj same
        cases left with
        | nil => simp at last
        | cons d left => simpa using ⟨by simpa using next rfl, rest⟩
      next same =>
        obtain ⟨-, rfl⟩ := List.cons.inj same
        exact rest
      next same => simp at same

theorem pairedReturns_drop {text : Text} (h : pairedReturns text = true) (n : Nat) :
    pairedReturns (text.drop n) = true := by
  rw [← List.take_append_drop n text] at h
  exact pairedReturns_of_append h

theorem getLast?_ne_return {left right : Text} {c : Char}
    (h : pairedReturns (left ++ c :: right) = true) (inLine : c ≠ '\n') :
    left.getLast? ≠ some '\r' := by
  intro last
  obtain ⟨left, rfl⟩ := List.getLast?_eq_some_iff.1 last
  rw [List.append_assoc] at h
  have := (pairedReturns_cons (pairedReturns_of_append h)).1 rfl
  simp at this
  exact inLine this

/-! ## What a gap starts with -/

private theorem Lexeme.head_of_gap {c : Char} {u : Text}
    (h : Lexeme none (c :: u)) :
    isNameChar c = false := by
  cases h with
  | blank blank => exact isNameChar_of_isBlank blank
  | lineComment _ => decide
  | blockComment _ => decide

private theorem Token.isNameChar_of_closes {t : Token} (h : t.closes = true) :
    isNameChar t.first = false := by
  simp only [closes, isCloser, Bool.and_eq_true, Bool.or_eq_true, beq_iff_eq] at h
  rcases h.2 with (same | same) | same <;> rw [same] <;> decide

private theorem Lexed.head_of_closes {start : Nat} {text : Text} {t : Token}
    {ts : List Token} {next? : Option Char}
    (h : Lexed start text (t :: ts) next?) (closes : t.closes = true) :
    ∀ c ∈ text.head?, isNameChar c = false := by
  obtain ⟨left, right, rfl, -, gap, -⟩ := h.firstToken
  intro c mem
  generalize none' : ([] : List Token) = tokens at gap
  cases gap with
  | nil =>
      obtain rfl : t.first = c := by simpa [Token.text] using mem
      exact Token.isNameChar_of_closes closes
  | @gap _ u later _ _ lexeme =>
      obtain ⟨d, u, rfl⟩ := List.exists_cons_of_ne_nil lexeme.ne_nil
      obtain rfl : d = c := by simpa using mem
      exact lexeme.head_of_gap
  | token => simp at none'

/-! ## Clear regions -/

/-- A region without which a text has the tokens `front` and `behind`. -/
structure Clears (text : Text) (front behind : List Token) (region : Span) :
    Prop where
  ordered : region.start < region.stop
  inside : region.stop ≤ text.length
  before : Lexed 0 (text.take region.start) front (text.drop region.stop).head?
  after : Lexed region.stop (text.drop region.stop) behind none
  lastInLine : pairedReturns text = true →
    (text.take region.start).getLast? ≠ some '\r'

/-- Whether a slash in front of a region stays a token: what stands behind the
region does not make it the start of a comment. -/
def LeavesSlash (tokens : List Token) (text : Text) (region : Span) : Prop :=
  ∀ t ∈ tokens, t.text = ['/'] → t.stop = region.start →
    ∀ c ∈ (text.drop region.stop).head?, c ≠ '/' ∧ c ≠ '*'

theorem LeavesSlash.mono {ts tokens : List Token} {text : Text} {region : Span}
    (h : LeavesSlash tokens text region) (within : ts ⊆ tokens) :
    LeavesSlash ts text region :=
  fun t mem => h t (within mem)

/-- The text without a region. -/
def cutOut (region : Span) (text : Text) : Text :=
  text.take region.start ++ text.drop region.stop

namespace Clears

variable {text : Text} {front front' behind : List Token} {region : Span}

theorem lexed (h : Clears text front behind region) :
    ∃ tokens, Lexed 0 (cutOut region text) tokens none ∧
      bare tokens = bare (front ++ behind) := by
  obtain ⟨moved, chain, same⟩ := h.after.move (0 + (text.take region.start).length)
  have before : Lexed 0 (text.take region.start) front
      ((text.drop region.stop).head?.or none) := by
    rw [Option.or_none]
    exact h.before
  refine ⟨front ++ moved, before.append chain, ?_⟩
  rw [bare_append, bare_append]
  exact congrArg (bare front ++ ·) same

theorem pairedReturns_cutOut (paired : pairedReturns text = true)
    (last : (text.take region.start).getLast? ≠ some '\r') :
    pairedReturns (cutOut region text) = true := by
  rw [← List.take_append_drop region.start text] at paired
  exact pairedReturns_append paired (pairedReturns_drop (by simpa using paired) _)
    last

private theorem drop_take_eq {lead gap body rest : Text} {m n : Nat}
    (head : text.take n = lead ++ body) (tail : text.drop m = gap ++ rest)
    (length : lead.length = m + gap.length) :
    (text.take n).drop m = gap ++ body := by
  have same : lead = text.take lead.length := by
    have isPrefix : lead <+: text :=
      (List.prefix_append lead body).trans (head ▸ List.take_prefix n text)
    exact List.prefix_iff_eq_take.1 isPrefix
  have gap_eq : lead.drop m = gap := by
    rw [same, List.drop_take, tail, length, Nat.add_sub_cancel_left, List.take_left]
  rw [head, List.drop_append_of_le_length (by omega), gap_eq]

/-- Two regions with tokens between them lie apart, and without both the text
has the tokens before, between and behind them. -/
theorem both {front front' removed middle behind : List Token} {later : Span}
    (first : Clears text front (middle ++ removed) region)
    (second : Clears text (front' ++ middle) behind later)
    (nonempty : middle ≠ []) :
    region.stop ≤ later.start ∧
      ∃ tokens, Lexed 0 (cutOut region (cutOut later text)) tokens none ∧
        bare tokens = bare (front ++ (middle ++ behind)) ∧
        (pairedReturns text = true →
          pairedReturns (cutOut region (cutOut later text)) = true) := by
  obtain ⟨t, middle, rfl⟩ := List.exists_cons_of_ne_nil nonempty
  obtain ⟨gap, rest, tail, position, blank, -⟩ := first.after.firstToken
  obtain ⟨left, right, head, -, chain, -, -⟩ := second.before.split
  obtain ⟨gap', rest', rfl, position', -, here⟩ := chain.firstToken
  have size : (text.take later.start).length = later.start :=
    List.length_take_of_le
    (Nat.le_trans (Nat.le_of_lt second.ordered) second.inside)
  have apart : region.stop ≤ later.start := by
    have before := first.after.bounds t (by simp)
    have behind := second.before.bounds t (by simp)
    have := t.start_lt_stop
    omega
  rw [← List.append_assoc] at head
  -- the two chains read the same characters between the regions
  have between : (text.take later.start).drop region.stop =
      gap ++ (t.text ++ rest') :=
    drop_take_eq head tail (by rw [List.length_append]; omega)
  have shape : cutOut region (cutOut later text) =
      text.take region.start ++
        ((gap ++ (t.text ++ rest')) ++ text.drop later.stop) := by
    have le : region.start ≤ later.start :=
      Nat.le_trans (Nat.le_of_lt first.ordered) apart
    rw [cutOut, cutOut, List.take_append_of_le_length (by omega), List.take_take,
      Nat.min_eq_left le, List.drop_append_of_le_length (by omega), between]
  have sameHead : (text.drop region.stop).head? =
      ((gap ++ (t.text ++ rest')) ++ text.drop later.stop).head? := by
    rw [tail]
    cases gap <;> rfl
  have middleChain : Lexed region.stop (gap ++ (t.text ++ rest')) (t :: middle)
      ((text.drop later.stop).head?.or none) := by
    rw [Option.or_none]
    rw [position] at here
    exact blank.append here
  obtain ⟨later', chain', same'⟩ :=
    second.after.move (region.stop + (gap ++ (t.text ++ rest')).length)
  obtain ⟨moved, all, same⟩ :=
    (middleChain.append chain').move (0 + (text.take region.start).length)
  have frontChain : Lexed 0 (text.take region.start) front
      (((gap ++ (t.text ++ rest')) ++ text.drop later.stop).head?.or none) := by
    rw [Option.or_none, ← sameHead]
    exact first.before
  refine ⟨apart, front ++ moved, by rw [shape]; exact frontChain.append all, ?_, ?_⟩
  · rw [bare_append, bare_append]
    congr 1
    rw [bare, same]
    simp only [List.map_append, same', List.map_cons, List.cons_append, bare]
  · intro paired
    refine pairedReturns_cutOut
      (pairedReturns_cutOut paired (second.lastInLine paired)) ?_
    have le : region.start ≤ later.start :=
      Nat.le_trans (Nat.le_of_lt first.ordered) apart
    rw [cutOut, List.take_append_of_le_length (by omega), List.take_take,
      Nat.min_eq_left le]
    exact first.lastInLine paired

end Clears

/-! ## Which regions are clear -/

theorem Token.Genuine.lexed {t : Token} {next? : Option Char} (h : t.Genuine)
    (ends : EndsBefore (some t.kind) t.text next?) :
    Lexed t.start t.text [t] next? := by
  have later : Lexed (t.start + t.text.length) [] [] next? := .nil
  have ends : EndsBefore (some t.kind) t.text (([] : Text).head?.or next?) := ends
  have := later.token h ends
  rwa [List.append_nil] at this

private theorem Token.Genuine.bracket_ends {t : Token} {next? : Option Char}
    (h : t.Genuine) (bracket : t.text = ['[']) :
    EndsBefore (some t.kind) ['['] next? := by
  unfold Genuine at h
  rw [bracket] at h
  generalize t.kind = kind at h
  cases h with
  | string _ _ => trivial
  | name named => exact absurd (named '[' (by simp)) (by decide)
  | punct _ _ _ => exact fun slash => absurd slash (by decide)

private theorem Lexed.behindBlank {start : Nat} {line : Text}
    {tokens : List Token} {c : Char} {next? : Option Char}
    (h : Lexed start line tokens (some c)) (inLine : c ≠ '\n')
    (above : ∀ d ∈ line.getLast?, isBlank d = true) :
    Lexed start line tokens next? := by
  rcases List.eq_nil_or_concat line with rfl | ⟨line, d, rfl⟩
  · rw [h.tokens_eq_nil rfl]
    exact .nil
  · rw [List.concat_eq_append] at h above ⊢
    have blank : isBlank d = true := above d (by simp)
    have gap : Lexeme none [d] := .blank blank
    have last : Lexed (start + line.length) [d] [] next? :=
      .gap gap (fun comment => by simp at comment) .nil
    have before : Lexed start line tokens ([d].head?.or next?) :=
      h.dropBlank blank inLine
    have := before.append last
    rwa [List.append_nil] at this

namespace Widens

variable {before mid after line indent tail rest : Text} {tokens : List Token}
  {start : Nat}

private theorem lexed_ahead {c : Char}
    (h : Widens before mid after line indent tail rest)
    (chain : Lexed 0 before tokens (some c)) (inLine : c ≠ '\n')
    (last : indent = [] → ∀ p ∈ tokens.getLast?, p.stop = line.length →
      EndsBefore (some p.kind) p.text (some c) → EndsBefore
      (some p.kind) p.text rest.head?) :
    Lexed 0 line tokens rest.head? := by
  obtain rfl := h.ahead
  rcases h.start with rfl | ⟨pads, above⟩
  · rw [List.append_nil] at chain
    refine chain.reseat_before inLine fun p mem touches => last rfl p mem ?_
    rw [touches, Nat.zero_add]
  · -- what the line starts with is white space, and the line feed above it
    -- ends every token
    have newline : isBlank '\n' = true := by decide
    have above : ∀ d ∈ line.getLast?, isBlank d = true := fun d mem =>
      above d mem ▸ newline
    have dropped := chain.dropBlanks
      (fun c mem => isBlank_of_isPad (pads c mem)) inLine
    cases indent with
    | nil => exact dropped.behindBlank inLine above
    | cons c indent =>
        exact dropped.behindBlank (isBlank_of_isPad (pads c (by simp))).2 above

private theorem lexed_behind (h : Widens before mid after line indent tail rest)
    (closed : '\r' ∉ (commentBehind after).dropLast)
    (chain : Lexed start after tokens none) :
    Lexed (start + tail.length) rest tokens none := by
  rcases h.skips closed with skips | ⟨rfl, noTokens⟩
  · exact skips _ _ _ _ (h.behind ▸ chain)
  · rw [noTokens _ _ _ chain]
    exact .nil

end Widens

namespace Clears

variable {text : Text} {front behind : List Token}

private theorem of_parts {left mid right : Text} (nonempty : mid ≠ [])
    (before : Lexed 0 left front right.head?)
    (after : Lexed (left ++ mid).length right behind none)
    (last : pairedReturns (left ++ (mid ++ right)) = true →
      left.getLast? ≠ some '\r') :
    Clears (left ++ (mid ++ right)) front behind ⟨left.length,
      (left ++ mid).length⟩ := by
  have behind_eq : (left ++ (mid ++ right)).drop (left ++ mid).length = right := by
    rw [← List.append_assoc, List.drop_left]
  have length : 0 < mid.length := List.length_pos_iff.2 nonempty
  constructor
  · simp only [List.length_append]
    omega
  · simp only [List.length_append]
    omega
  · rw [List.take_left, behind_eq]
    exact before
  · rw [behind_eq]
    exact after
  · rw [List.take_left]
    exact last

/-- The tokens from `t` to `last`, with the whole lines on which they stand
alone.  The token before them must not become longer, if nothing stands between
it and the region. -/
theorem exists_lines {ts : List Token} {t last : Token}
    (h : Lexed 0 text (front ++ t :: (ts ++ behind)) none)
    (final : (t :: ts).getLast? = some last)
    (closed : '\r' ∉ (commentBehind (text.drop last.stop)).dropLast)
    (before : ∀ region, wholeLines text ⟨t.start, last.stop⟩ = .ok region →
      region.start = t.start → ∀ p ∈ front.getLast?, p.stop = region.start →
      EndsBefore (some p.kind) p.text (some t.first) → EndsBefore
      (some p.kind) p.text (text.drop region.stop).head?) :
    ∃ region, wholeLines text ⟨t.start, last.stop⟩ = .ok region ∧
      Clears text front behind region := by
  have inLine : t.first ≠ '\n' := (h.genuine t (by simp)).first_ne_newline
  obtain ⟨left, middle, after, rfl, start, stop, ⟨more, shape⟩, first, here,
    later⟩ := h.window
  rw [Nat.zero_add] at start
  have stop := stop last final
  rw [Nat.zero_add] at stop later
  rw [stop, ← List.append_assoc, List.drop_left] at closed
  obtain ⟨line, indent, tail, rest, widens⟩ := exists_widens left middle after
  obtain rfl := widens.ahead
  obtain rfl := widens.behind
  have lines := widens.lines
  rw [start, stop] at before ⊢
  have before := before _ lines
  refine ⟨_, lines, ?_⟩
  have whole : line ++ indent ++ (middle ++ (tail ++ rest)) =
      line ++ ((indent ++ middle ++ tail) ++ rest) := by
    simp only [List.append_assoc]
  have reach : line ++ indent ++ middle ++ tail =
      line ++ (indent ++ middle ++ tail) := by
    simp only [List.append_assoc]
  have behindChain :
      Lexed (line ++ indent ++ middle ++ tail).length rest behind none := by
    rw [List.length_append]
    exact widens.lexed_behind closed later
  have behind_eq : (line ++ indent ++ (middle ++ (tail ++ rest))).drop
      (line ++ indent ++ middle ++ tail).length = rest := by
    rw [← List.append_assoc, ← List.append_assoc, List.drop_left]
  rw [behind_eq] at before
  have frontChain : Lexed 0 line front rest.head? := by
    refine widens.lexed_ahead first inLine ?_
    rintro rfl
    exact before (by simp)
  rw [whole, reach]
  rw [reach] at behindChain
  refine of_parts ?_ frontChain behindChain ?_
  · intro empty
    obtain rfl : middle = [] := by
      rw [List.append_eq_nil_iff, List.append_eq_nil_iff] at empty
      exact empty.1.2
    have := here.tokens_eq_nil rfl
    simp at this
  · intro paired
    rcases widens.start with rfl | ⟨-, above⟩
    · rw [← whole, List.append_nil, shape] at paired
      exact getLast?_ne_return paired inLine
    · intro last
      exact absurd (above _ last) (by decide)

theorem between {ts : List Token} {t last closer : Token}
    (h : Lexed 0 text (front ++ t :: (ts ++ closer :: behind)) none)
    (final : (t :: ts).getLast? = some last) (closes : closer.closes = true)
    (before : LeavesSlash front.getLast?.toList text ⟨t.start, last.stop⟩) :
    Clears text front (closer :: behind) ⟨t.start, last.stop⟩ := by
  have inLine : t.first ≠ '\n' := (h.genuine t (by simp)).first_ne_newline
  obtain ⟨left, middle, after, rfl, start, stop, ⟨more, shape⟩, first, here,
    later⟩ := h.window
  rw [Nat.zero_add] at start
  have stop := stop last final
  rw [Nat.zero_add] at stop later
  have behind_eq : (left ++ (middle ++ after)).drop (left ++ middle).length =
      after := by
    rw [← List.append_assoc, List.drop_left]
  rw [start, stop] at before ⊢
  have frontChain : Lexed 0 left front after.head? := by
    refine first.reseat_before inLine fun p mem touches ends => ?_
    by_cases slash : p.text = ['/']
    · have apart := before p (by simpa using mem) slash
        (by rw [touches, Nat.zero_add])
      rw [behind_eq] at apart
      cases kind : p.kind with
      | name => exact fun c mem => later.head_of_closes closes c mem
      | string => trivial
      | punct => exact fun _ => apart
    · exact ends.of_notSlash slash fun _ => .inr (later.head_of_closes closes)
  refine of_parts ?_ frontChain later fun paired => ?_
  · rintro rfl
    have := here.tokens_eq_nil rfl
    simp at this
  · rw [shape] at paired
    exact getLast?_ne_return paired inLine

theorem inside_list {inner : List Token} {opener closer : Token}
    (h : Lexed 0 text (front ++ opener :: (inner ++ closer :: behind)) none)
    (nonempty : inner ≠ []) (opens : opener.text = ['[']) :
    Clears text (front ++ [opener]) (closer :: behind) ⟨opener.stop,
      closer.start⟩ := by
  have genuine := h.genuine opener (by simp)
  have opensWith : opener.first = '[' := (List.cons.inj opens).1
  rw [← List.nil_append (inner ++ closer :: behind)] at h
  obtain ⟨left, mid, after, rfl, start, stop, ⟨more, shape⟩, first, -, later⟩ :=
    h.window
  have stop := stop opener rfl
  rw [Nat.zero_add] at start stop later
  obtain rfl : mid = ['['] := by
    have size : mid.length = 1 := by
      rw [Token.stop, opens, start, List.length_append] at stop
      simpa using stop.symm
    have same := congrArg (List.take mid.length) shape
    rw [List.take_left, opens, size] at same
    exact same
  obtain ⟨ahead, rest, rfl, chain, behindChain, -, -⟩ := later.split
  obtain ⟨gap, more', rfl, position, -, here⟩ := behindChain.firstToken
  have some : ahead ≠ [] := by
    rintro rfl
    exact nonempty (chain.tokens_eq_nil rfl)
  have frontChain : Lexed 0 (left ++ ['[']) (front ++ [opener])
      (closer.text ++ more').head? := by
    have bracket : Lexed opener.start ['['] [opener] (closer.text ++ more').head? :=
      opens ▸ genuine.lexed (opens ▸ genuine.bracket_ends opens)
    rw [start] at bracket
    refine Lexed.append (first.reseat ?_ ?_) (by rwa [Nat.zero_add])
    · exact fun _ _ ends => opensWith ▸ ends
    · exact fun _ _ ends => opensWith ▸ ends
  have start_eq : closer.start = (left ++ ['['] ++ (ahead ++ gap)).length := by
    rw [position]
    simp only [List.length_append]
    omega
  rw [stop, start_eq]
  rw [start_eq] at here
  have whole : left ++ (['['] ++ (ahead ++ (gap ++ (closer.text ++ more')))) =
      left ++ ['['] ++ (ahead ++ gap ++ (closer.text ++ more')) := by
    simp only [List.append_assoc]
  rw [whole]
  exact of_parts (by simp [some]) frontChain here (by simp)

end Clears

/-! ## Regions with something in their place -/

/-- Putting `filler` in the place of `span` is the same as cutting `region` out
of it. -/
structure Trims (text : Text) (span : Span) (filler : Text) (region : Span) :
    Prop where
  ordered : region.start ≤ region.stop
  parts : ∃ left right, filler = left ++ right ∧
    span.start + left.length = region.start ∧
    region.stop + right.length = span.stop ∧
    (text.take region.start).drop span.start = left ∧
    (text.take span.stop).drop region.stop = right

namespace Trims

variable {text text' filler : Text} {span region : Span}

theorem refl (ordered : region.start ≤ region.stop) : Trims text region [] region :=
  ⟨ordered, [], [], rfl, rfl, rfl, by simp, by simp⟩

theorem congr (h : Trims text span filler region) {n : Nat}
    (same : text.take n = text'.take n) (le : span.stop ≤ n) :
    Trims text' span filler region := by
  obtain ⟨left, right, shape, start, stop, first, last⟩ := h.parts
  have prefixes (k : Nat) (le' : k ≤ n) : text'.take k = text.take k := by
    rw [← Nat.min_eq_left le', ← List.take_take, ← same, List.take_take]
  have := h.ordered
  refine ⟨h.ordered, left, right, shape, start, stop, ?_, ?_⟩
  · rw [prefixes _ (by omega), first]
  · rw [prefixes _ le, last]

theorem splice_eq (h : Trims text span filler region)
    (inside : span.stop ≤ text.length) :
    span.splice text filler = .ok (cutOut region text) := by
  obtain ⟨left, right, rfl, start, stop, first, last⟩ := h.parts
  have := h.ordered
  rw [Span.splice_eq_ok _ (by omega) inside, cutOut]
  have front : text.take region.start = text.take span.start ++ left := by
    have parts := List.take_append_drop span.start (text.take region.start)
    rw [List.take_take, Nat.min_eq_left (by omega), first] at parts
    exact parts.symm
  have back : text.drop region.stop = right ++ text.drop span.stop := by
    have parts : (text.take span.stop ++ text.drop span.stop).drop region.stop =
        (text.take span.stop).drop region.stop ++ text.drop span.stop :=
      List.drop_append_of_le_length (by rw [List.length_take_of_le inside]; omega)
    rwa [List.take_append_drop, last] at parts
  rw [front, back]
  simp

end Trims

end Showcase.Registry

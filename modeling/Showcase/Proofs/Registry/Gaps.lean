import Showcase.Proofs.Registry.Reading
import Showcase.Registry.Line

/-!
# Gaps behind a region

What `wholeLines` adds to a region is a gap: spaces, and on a line of its own a
comment and the line end.  A chain goes on behind such a gap as before (`Skips`).
-/

namespace Showcase.Registry

/-- Whether a line feed follows every carriage return. -/
def pairedReturns : Text → Bool
  | '\r' :: rest => rest.head? == some '\n' && pairedReturns rest
  | _ :: rest => pairedReturns rest
  | [] => true

theorem pairedReturns_cons {c : Char} {text : Text}
    (h : pairedReturns (c :: text) = true) :
    (c = '\r' → text.head? = some '\n') ∧ pairedReturns text = true := by
  unfold pairedReturns at h
  split at h
  next rest same =>
    obtain ⟨rfl, rfl⟩ := List.cons.inj same
    simpa using h
  next d rest other same =>
    obtain ⟨rfl, rfl⟩ := List.cons.inj same
    exact ⟨fun isReturn => absurd isReturn (by simpa using other), h⟩
  next same => simp at same

theorem pairedReturns_of_append {left right : Text}
    (h : pairedReturns (left ++ right) = true) :
    pairedReturns right = true := by
  induction left with
  | nil => exact h
  | cons c left ih => exact ih (pairedReturns_cons h).2

theorem pairedReturns_of_not_mem {text : Text} (noReturn : '\r' ∉ text) :
    pairedReturns text = true := by
  induction text with
  | nil => rfl
  | cons c text ih =>
      rw [List.mem_cons, not_or] at noReturn
      rw [pairedReturns.eq_def]
      split
      next same => exact absurd (List.cons.inj same).1.symm noReturn.1
      next same =>
        obtain ⟨-, rfl⟩ := List.cons.inj same
        exact ih noReturn.2
      next => rfl

/-- The `//` comment behind a region, up to the line feed that ends it. -/
def commentBehind (after : Text) : Text :=
  let rest := after.dropWhile isPad
  if "//".toList.isPrefixOf rest then rest.takeWhile (· ≠ '\n') else []

private theorem not_mem_takeWhile_dropLast {text : Text}
    (h : pairedReturns text = true) :
    '\r' ∉ (text.takeWhile (· ≠ '\n')).dropLast := by
  induction text with
  | nil => simp
  | cons c text ih =>
      obtain ⟨next, later⟩ := pairedReturns_cons h
      by_cases feed : c = '\n'
      · simp [feed]
      · rw [List.takeWhile_cons_of_pos (by simpa using feed)]
        cases run : text.takeWhile (· ≠ '\n') with
        | nil => simp
        | cons d rest =>
            rw [List.dropLast_cons_cons, List.mem_cons, not_or, ← run]
            refine ⟨fun isReturn => ?_, ih later⟩
            obtain ⟨text, rfl⟩ := List.head?_eq_some_iff.1 (next isReturn.symm)
            simp at run

theorem not_mem_commentBehind {after : Text} (paired : pairedReturns after = true) :
    '\r' ∉ (commentBehind after).dropLast := by
  rw [commentBehind]
  split_ifs
  · apply not_mem_takeWhile_dropLast
    rw [← List.takeWhile_append_dropWhile (p := isPad) (l := after)] at paired
    exact pairedReturns_of_append paired
  · simp

/-! ## Gaps that can be left out -/

/-- Whether a chain that starts with a text goes on behind it. -/
def Skips (gap : Text) : Prop :=
  ∀ start text tokens next?, Lexed start (gap ++ text) tokens next? →
    Lexed (start + gap.length) text tokens next?

private theorem skips_nil : Skips [] := fun _ _ _ _ h => h

theorem Skips.append {left right : Text} (first : Skips left)
    (second : Skips right) :
    Skips (left ++ right) := by
  intro start text tokens next? h
  rw [List.append_assoc] at h
  rw [List.length_append, ← Nat.add_assoc]
  exact second _ _ _ _ (first _ _ _ _ h)

theorem skips_blank {c : Char} (blank : isBlank c = true) : Skips [c] := by
  intro start text tokens next? h
  generalize all : [c] ++ text = whole at h
  cases h with
  | nil => simp at all
  | @gap _ u later _ _ lexeme ends chain =>
      obtain ⟨d, u, rfl⟩ := List.exists_cons_of_ne_nil lexeme.ne_nil
      obtain ⟨rfl, rest⟩ := List.cons.inj all
      obtain ⟨-, rfl⟩ := lexeme.eq_blank blank
      obtain rfl : text = later := rest
      exact chain
  | token lexeme ends chain =>
      obtain ⟨rfl, -⟩ := List.cons.inj all
      exact absurd (lexeme.eq_blank blank).1 (by simp)

private theorem skips_blanks {blanks : Text}
    (blank : ∀ c ∈ blanks, isBlank c = true) : Skips blanks := by
  induction blanks with
  | nil => exact skips_nil
  | cons c blanks ih =>
      exact (skips_blank (blank c (by simp))).append (ih fun d mem =>
        blank d (by simp [mem]))

private theorem not_isBlank_slash {c : Char} (blank : isBlank c = true) :
    c ≠ '/' ∧ c ≠ '*' := by
  constructor <;> rintro rfl <;> exact absurd blank (by decide)

theorem endsBefore_blank (kind : TokenKind) (u : Text) {c : Char}
    (blank : isBlank c = true) :
    EndsBefore (some kind) u (some c) := by
  cases kind with
  | name =>
      intro d here
      cases here
      exact isNameChar_of_isBlank blank
  | string => trivial
  | punct =>
      intro _ d here
      cases here
      exact not_isBlank_slash blank

theorem Lexed.lineComment {start : Nat} {text : Text} {tokens : List Token}
    {next? : Option Char} (h : Lexed start ('/' :: '/' :: text) tokens next?) :
    ∃ body rest, text = body ++ rest ∧ '\n' ∉ body ∧
      (∀ c ∈ rest.head?.or next?, c = '\n') ∧
      Lexed (start + ('/' :: '/' :: body).length) rest tokens next? := by
  generalize all : '/' :: '/' :: text = whole at h
  cases h with
  | nil => simp at all
  | @gap _ u later _ _ lexeme ends chain =>
      cases lexeme with
      | blank blank =>
          obtain ⟨rfl, -⟩ := List.cons.inj all
          exact absurd blank (by decide)
      | lineComment oneLine =>
          obtain ⟨-, rest⟩ := List.cons.inj all
          obtain ⟨-, rfl⟩ := List.cons.inj rest
          exact ⟨_, later, rfl, oneLine, ends rfl, chain⟩
      | blockComment _ => simp at all
  | token lexeme ends chain =>
      cases lexeme with
      | string quoted _ =>
          obtain ⟨rfl, -⟩ := List.cons.inj all
          exact absurd quoted (by decide)
      | name named =>
          obtain ⟨rfl, -⟩ := List.cons.inj all
          exact absurd (named '/' (by simp)) (by decide)
      | punct _ _ _ =>
          obtain ⟨rfl, rest⟩ := List.cons.inj all
          obtain rfl : '/' :: text = _ := rest
          exact absurd rfl (ends rfl '/' rfl).1

theorem skips_lineComment {body : Text} (oneLine : '\n' ∉ body) :
    Skips ('/' :: '/' :: body ++ ['\n']) := by
  intro start text tokens next? h
  have shape : '/' :: '/' :: body ++ ['\n'] ++ text = '/' :: '/' ::
      (body ++ '\n' :: text) := by
    simp
  rw [shape] at h
  obtain ⟨body', rest, split, oneLine', ends, chain⟩ := h.lineComment
  have same : body = body' ∧ '\n' :: text = rest := by
    rcases List.append_eq_append_iff.1 split with ⟨more, rfl, rfl'⟩ |
      ⟨more, rfl, rfl'⟩
    · cases more with
      | nil => exact ⟨by simp, by simpa using rfl'⟩
      | cons c more =>
          obtain ⟨rfl, -⟩ := List.cons.inj rfl'
          simp at oneLine'
    · cases more with
      | nil => exact ⟨by simp, by simpa using rfl'.symm⟩
      | cons c more =>
          rw [rfl'] at ends
          have := ends c (by simp)
          subst this
          simp at oneLine
  obtain ⟨rfl, rfl⟩ := same
  have behind := skips_blank (c := '\n') (by decide) _ _ _ _ chain
  simpa [Nat.add_assoc] using behind

theorem Lexed.lastComment {start : Nat} {body : Text} {tokens : List Token}
    {next? : Option Char} (h : Lexed start ('/' :: '/' :: body) tokens next?)
    (oneLine : '\n' ∉ body) : tokens = [] := by
  obtain ⟨body', rest, rfl, -, ends, chain⟩ := h.lineComment
  cases rest with
  | nil => exact chain.tokens_eq_nil rfl
  | cons c rest =>
      have := ends c (by simp)
      subst this
      simp at oneLine

/-! ## Gaps that hold no token -/

/-- Whether every token of a chain that starts with a text stands behind it. -/
def TokenFree (gap : Text) : Prop :=
  ∀ start text tokens next?, Lexed start (gap ++ text) tokens next? →
    ∀ t ∈ tokens, start + gap.length ≤ t.start

private theorem Skips.tokenFree {gap : Text} (h : Skips gap) : TokenFree gap :=
  fun _ _ _ _ lexed t mem => ((h _ _ _ _ lexed).bounds t mem).1

private theorem Skips.append_tokenFree {left right : Text} (first : Skips left)
    (second : TokenFree right) :
    TokenFree (left ++ right) := by
  intro start text tokens next? h t mem
  rw [List.append_assoc] at h
  rw [List.length_append, ← Nat.add_assoc]
  exact second _ _ _ _ (first _ _ _ _ h) t mem

private theorem tokenFree_lineComment {body : Text} (oneLine : '\n' ∉ body) :
    TokenFree ('/' :: '/' :: body) := by
  intro start text tokens next? h t mem
  obtain ⟨body', rest, split, -, ends, chain⟩ := h.lineComment
  have shorter : body.length ≤ body'.length := by
    rcases List.append_eq_append_iff.1 split with ⟨more, rfl, -⟩ | ⟨more, rfl, rfl⟩
    · simp
    · cases more with
      | nil => simp
      | cons c more =>
          obtain rfl : c = '\n' := ends c (by simp)
          simp at oneLine
  have := (chain.bounds t mem).1
  simp only [List.length_cons] at this ⊢
  omega

/-! ## Whole lines -/

theorem isBlank_of_isPad {c : Char} (h : isPad c = true) :
    isBlank c = true ∧ c ≠ '\n' := by
  simp only [isPad, Bool.or_eq_true, beq_iff_eq] at h
  rcases h with rfl | rfl <;> decide

/-- Whether what is before a region, read backwards, is the end of a line. -/
def startsLine : Text → Bool
  | [] => true
  | c :: _ => c == '\n'

def endsLine : Text → Bool
  | [] => true
  | c :: _ => isLineEnd c

private theorem wholeLines_of_inside {text : Text} {span : Span}
    (inside : span.start ≤ text.length ∧ span.stop ≤ text.length) :
    wholeLines text span =
      let before := (text.take span.start).reverse
      let padded := span.stop + ((text.drop span.stop).takeWhile isPad).length
      let comment :=
        if startsLine (before.dropWhile isPad) &&
          "//".toList.isPrefixOf (text.drop padded) then
          (text.drop padded).takeWhile (!isLineEnd ·)
        else []
      let stop := padded + comment.length
      if startsLine (before.dropWhile isPad) && endsLine (text.drop stop) then
        .ok ⟨span.start - (before.takeWhile isPad).length,
          stop + lineEnd (text.drop stop)⟩
      else .ok ⟨span.start, stop⟩ := by
  rw [wholeLines, if_neg (by omega)]
  rfl

section WholeLines

variable {line indent pads comment later : Text}

theorem wholeLines_eq (mid : Text) (indented : ∀ c ∈ indent, isPad c = true)
    (before : ∀ c ∈ line.getLast?, isPad c = false)
    (padded : ∀ c ∈ pads, isPad c = true)
    (stops : ∀ c ∈ (comment ++ later).head?, isPad c = false)
    (isComment : comment = if startsLine line.reverse &&
      "//".toList.isPrefixOf (comment ++ later) then (comment ++ later).takeWhile
      (!isLineEnd ·) else []) :
    wholeLines (line ++ indent ++ (mid ++ (pads ++ (comment ++ later))))
        ⟨(line ++ indent).length, (line ++ indent ++ mid).length⟩ =
      if startsLine line.reverse && endsLine later then
        .ok ⟨line.length, (line ++ indent ++ mid ++ (pads ++ comment)).length +
          lineEnd later⟩
      else .ok ⟨(line ++ indent).length,
        (line ++ indent ++ mid ++ (pads ++ comment)).length⟩ := by
  have reversed : (line ++ indent).reverse = indent.reverse ++ line.reverse :=
    List.reverse_append
  have ends : ∀ c ∈ line.reverse.head?, isPad c = false := by
    rwa [List.head?_reverse]
  have indentation : (line ++ indent).reverse.takeWhile isPad = indent.reverse := by
    rw [reversed]
    exact takeWhile_append_of_ends (by simpa using indented) ends
  have aboveIndentation : (line ++ indent).reverse.dropWhile isPad =
      line.reverse := by
    rw [reversed, List.dropWhile_append_of_pos (by simpa using indented)]
    cases shape : line.reverse with
    | nil => rfl
    | cons c rest =>
        rw [shape] at ends
        rw [List.dropWhile_cons_of_neg (by simp [ends c rfl])]
  have behind (u rest : Text) (shape : u ++ rest = pads ++ (comment ++ later)) :
      (line ++ indent ++ (mid ++ (pads ++ (comment ++ later)))).drop
        ((line ++ indent ++ mid).length + u.length) = rest := by
    rw [← shape, ← List.append_assoc, ← List.append_assoc, ← List.length_append,
      List.drop_left]
  have padding : (pads ++ (comment ++ later)).takeWhile isPad = pads :=
    takeWhile_append_of_ends padded stops
  have first := behind [] (pads ++ (comment ++ later)) rfl
  simp only [List.length_nil, Nat.add_zero] at first
  have second := behind pads (comment ++ later) rfl
  have third := behind (pads ++ comment) later (List.append_assoc _ _ _)
  have reached : (line ++ indent ++ mid).length + (pads ++ comment).length =
      (line ++ indent ++ mid).length + pads.length + comment.length := by
    simp only [List.length_append]
    omega
  have sum : (line ++ indent ++ mid ++ (pads ++ comment)).length =
      (line ++ indent ++ mid).length + pads.length + comment.length := by
    rw [List.length_append, reached]
  have back : (line ++ indent).length - indent.reverse.length = line.length := by
    simp
  rw [reached] at third
  rw [wholeLines_of_inside]
  · simp only [List.take_left, indentation, aboveIndentation, first, padding,
      second, ← isComment, third, back, sum]
  · simp only [List.length_append]
    omega

end WholeLines

/-! ## What a region takes with it -/

theorem exists_indent (before : Text) :
    ∃ line indent, before = line ++ indent ∧ (∀ c ∈ indent, isPad c = true) ∧
      ∀ c ∈ line.getLast?, isPad c = false := by
  obtain ⟨indent, line, reversed, -, indented, above⟩ :=
    exists_of_takeWhile isPad before.reverse
  refine ⟨line.reverse, indent.reverse, ?_, by simpa using indented,
    by simpa using above⟩
  rw [← List.reverse_append, ← reversed, List.reverse_reverse]

/-- A line end as `lineEnd` counts it, before the rest of the text. -/
def IsLineEnd (ending rest : Text) : Prop :=
  ending = ['\n'] ∨ ending = ['\r', '\n'] ∨ ending = ['\r'] ∧ rest.head? ≠ some '\n'

/-- The line end that a text starts with.  A carriage return on its own is one,
too. -/
private theorem exists_lineEnd {later : Text} (ends : endsLine later = true) :
    later = [] ∨ ∃ ending rest, later = ending ++ rest ∧
      lineEnd later = ending.length ∧
      IsLineEnd ending rest := by
  cases later with
  | nil => exact .inl rfl
  | cons c rest =>
      simp only [endsLine, isLineEnd, Bool.or_eq_true, beq_iff_eq] at ends
      rcases ends with rfl | rfl
      · exact .inr ⟨['\n'], rest, rfl, by simp [lineEnd], .inl rfl⟩
      · by_cases paired : rest.head? = some '\n'
        · obtain ⟨rest, rfl⟩ := List.head?_eq_some_iff.1 paired
          exact .inr ⟨['\r', '\n'], rest, rfl, by simp [lineEnd], .inr (.inl rfl)⟩
        · refine .inr ⟨['\r'], rest, rfl, ?_, .inr (.inr ⟨rfl, paired⟩)⟩
          cases rest with
          | nil => rfl
          | cons d rest =>
              have notFeed : d ≠ '\n' := by simpa using paired
              simp [lineEnd, notFeed]

/-- A comment, or nothing, up to the end of its line. -/
def IsComment (comment : Text) : Prop :=
  comment = [] ∨ ∃ body, comment = '/' :: '/' :: body ∧ '\n' ∉ body

theorem IsComment.skips {comment ending : Text} (h : IsComment comment)
    (isEnd : ending = ['\n'] ∨ ending = ['\r', '\n']) :
    Skips (comment ++ ending) := by
  have newline : isBlank '\n' = true := by decide
  have return' : isBlank '\r' = true := by decide
  rcases h with rfl | ⟨body, rfl, oneLine⟩
  · rcases isEnd with rfl | rfl <;> exact skips_blanks (by simp [newline, return'])
  · rcases isEnd with rfl | rfl
    · exact skips_lineComment oneLine
    · have oneLine' : '\n' ∉ body ++ ['\r'] := by simpa using oneLine
      simpa using skips_lineComment oneLine'

private theorem IsComment.tokenFree {comment : Text} (h : IsComment comment) :
    TokenFree comment := by
  rcases h with rfl | ⟨body, rfl, oneLine⟩
  · exact skips_nil.tokenFree
  · exact tokenFree_lineComment oneLine

theorem IsComment.tokens_eq_nil {comment : Text} (h : IsComment comment)
    {start : Nat} {tokens : List Token} {next? : Option Char}
    (lexed : Lexed start comment tokens next?) :
    tokens = [] := by
  rcases h with rfl | ⟨body, rfl, oneLine⟩
  · exact lexed.tokens_eq_nil rfl
  · exact lexed.lastComment oneLine

private theorem IsComment.append_return {comment : Text} (h : IsComment comment)
    (some : comment ≠ []) :
    IsComment (comment ++ ['\r']) := by
  rcases h with rfl | ⟨body, rfl, oneLine⟩
  · exact absurd rfl some
  · exact .inr ⟨body ++ ['\r'], by simp, by simpa using oneLine⟩

theorem IsComment.newline_notMem {comment : Text} (h : IsComment comment) :
    '\n' ∉ comment := by
  rcases h with rfl | ⟨body, rfl, oneLine⟩
  · simp
  · simpa using oneLine

private theorem IsComment.tokenFree_lineEnd {comment ending rest : Text}
    (h : IsComment comment) (isEnd : IsLineEnd ending rest) :
    TokenFree (comment ++ ending) := by
  rcases isEnd with rfl | rfl | ⟨rfl, -⟩
  · exact (h.skips (.inl rfl)).tokenFree
  · exact (h.skips (.inr rfl)).tokenFree
  · by_cases none' : comment = []
    · subst none'
      exact (skips_blank (by decide)).tokenFree
    · exact (h.append_return none').tokenFree

/-- A comment ends with its line.  A carriage return on its own ends no comment,
so it has to be the text's last character. -/
private theorem IsComment.skips_or_last {comment ending rest : Text}
    (h : IsComment comment) (isEnd : IsLineEnd ending rest)
    (closed : comment ≠ [] →
      '\r' ∉ ((comment ++ (ending ++ rest)).takeWhile (· ≠ '\n')).dropLast) :
    Skips (comment ++ ending) ∨ rest = [] ∧ IsComment (comment ++ ending) := by
  rcases isEnd with rfl | rfl | ⟨rfl, lone⟩
  · exact .inl (h.skips (.inl rfl))
  · exact .inl (h.skips (.inr rfl))
  · by_cases none' : comment = []
    · subst none'
      exact .inl (skips_blank (by decide))
    · cases rest with
      | nil => exact .inr ⟨rfl, h.append_return none'⟩
      | cons c rest =>
          have notFeed : c ≠ '\n' := by simpa using lone
          have inLine : ∀ d ∈ comment ++ ['\r'], decide (d ≠ '\n') = true := by
            intro d mem
            rw [decide_eq_true_eq]
            rintro rfl
            exact (h.append_return none').newline_notMem mem
          have inside := closed none'
          rw [← List.append_assoc, List.takeWhile_append_of_pos inLine,
            List.takeWhile_cons_of_pos (by simpa using notFeed),
            List.dropLast_append_cons] at inside
          simp at inside

theorem exists_comment (counts : Bool) (rest : Text) :
    ∃ comment later, rest = comment ++ later ∧ IsComment comment ∧
      (comment = if counts && "//".toList.isPrefixOf rest then
        rest.takeWhile (!isLineEnd ·) else []) ∧
      (comment ≠ [] → counts = true ∧ endsLine later = true) := by
  by_cases isComment : (counts && "//".toList.isPrefixOf rest) = true
  · obtain ⟨counts, slashes⟩ := Bool.and_eq_true_iff.1 isComment
    obtain ⟨text, rfl⟩ := List.isPrefixOf_iff_prefix.1 slashes
    obtain ⟨body, later, rfl, -, inLine, ends⟩ :=
      exists_of_takeWhile (!isLineEnd ·) text
    have oneLine : '\n' ∉ body := by
      intro mem
      exact absurd (inLine '\n' mem) (by decide)
    have run : ("//".toList ++ (body ++ later)).takeWhile (!isLineEnd ·) =
        '/' :: '/' :: body := by
      refine takeWhile_append_of_ends (u :=
        '/' :: '/' :: body) (fun c mem => ?_) ends
      simp only [List.mem_cons] at mem
      rcases mem with rfl | rfl | mem
      · decide
      · decide
      · exact inLine c mem
    refine ⟨'/' :: '/' :: body, later, rfl, .inr ⟨body, rfl, oneLine⟩,
      by rw [if_pos isComment, run], fun _ => ⟨counts, ?_⟩⟩
    cases later with
    | nil => rfl
    | cons c later => simpa [endsLine] using ends c rfl
  · exact ⟨[], rest, rfl, .inl rfl, by rw [if_neg isComment], by simp⟩

theorem startsLine_reverse (line : Text) :
    startsLine line.reverse = line.getLast?.all (· == '\n') := by
  rw [← List.head?_reverse]
  cases line.reverse <;> rfl

private theorem commentBehind_pads {pads comment later : Text}
    (padded : ∀ c ∈ pads, isPad c = true)
    (stops : ∀ c ∈ (comment ++ later).head?, isPad c = false)
    (isComment : IsComment comment) (some : comment ≠ []) :
    commentBehind (pads ++ (comment ++ later)) =
      (comment ++ later).takeWhile (· ≠ '\n') := by
  have behindPads : (pads ++ (comment ++ later)).dropWhile isPad =
      comment ++ later := by
    rw [List.dropWhile_append_of_pos padded]
    cases shape : comment ++ later with
    | nil => rfl
    | cons c rest =>
        rw [List.dropWhile_cons_of_neg (by simp [stops c (by simp [shape])])]
  rw [commentBehind, behindPads, if_pos]
  rcases isComment with rfl | ⟨body, rfl, -⟩
  · exact absurd rfl some
  · rfl

/-- What a region between `before` and `after` takes with it: a gap `tail`
behind it and, if it starts a line, the indentation `indent` before it. -/
structure Widens (before mid after line indent tail rest : Text) : Prop where
  ahead : before = line ++ indent
  behind : after = tail ++ rest
  lines : wholeLines (before ++ (mid ++ after)) ⟨before.length,
    (before ++ mid).length⟩ =
      .ok ⟨line.length, (before ++ mid ++ tail).length⟩
  start : indent = [] ∨ (∀ c ∈ indent, isPad c = true) ∧
    ∀ c ∈ line.getLast?, c = '\n'
  free : TokenFree tail
  oneLine : '\n' ∉ tail.dropLast
  skips : '\r' ∉ (commentBehind after).dropLast →
    Skips tail ∨ rest = [] ∧ ∀ start tokens next?,
      Lexed start after tokens next? → tokens = []

theorem exists_widens (before mid after : Text) :
    ∃ line indent tail rest, Widens before mid after line indent tail rest := by
  obtain ⟨line, indent, rfl, indented, above⟩ := exists_indent before
  obtain ⟨pads, rest, rfl, -, padded, stops⟩ := exists_of_takeWhile isPad after
  obtain ⟨comment, later, rfl, isComment, same, ends⟩ :=
    exists_comment (startsLine line.reverse) rest
  have padSkips : Skips pads := skips_blanks fun c mem =>
    (isBlank_of_isPad (padded c mem)).1
  have inLine : '\n' ∉ pads := fun mem => (isBlank_of_isPad (padded _ mem)).2 rfl
  have inLine' : '\n' ∉ pads ++ comment := by
    simp [inLine, isComment.newline_notMem]
  have lines := wholeLines_eq mid indented above padded stops same
  by_cases alone : (startsLine line.reverse && endsLine later) = true
  · -- nothing else is on its lines, which go whole
    rw [if_pos alone] at lines
    obtain ⟨starts, ends⟩ := Bool.and_eq_true_iff.1 alone
    have above' : ∀ c ∈ line.getLast?, c = '\n' := by
      intro c mem
      rw [startsLine_reverse, mem] at starts
      simpa using starts
    rcases exists_lineEnd ends with rfl | ⟨ending, rest, rfl, length, isEnd⟩
    · refine ⟨line, indent, pads ++ comment, [], rfl, by simp, lines,
        .inr ⟨indented, above'⟩,
        padSkips.append_tokenFree isComment.tokenFree, fun mem =>
          inLine' (List.dropLast_subset _ mem),
        fun _ => .inr ⟨rfl, ?_⟩⟩
      intro start tokens next? lexed
      rw [List.append_nil] at lexed
      exact isComment.tokens_eq_nil (padSkips _ _ _ _ lexed)
    · refine ⟨line, indent, pads ++ (comment ++ ending), rest, rfl, by simp, ?_,
        .inr ⟨indented, above'⟩,
        padSkips.append_tokenFree (isComment.tokenFree_lineEnd isEnd), ?_, ?_⟩
      · rw [lines, length]
        congr 2
        simp only [List.length_append]
        omega
      · rw [← List.append_assoc]
        rcases isEnd with rfl | rfl | ⟨rfl, -⟩
        · simpa [List.dropLast_concat] using inLine'
        · have shape : pads ++ comment ++ ['\r', '\n'] = pads ++ comment ++
            ['\r'] ++ ['\n'] := by simp
          rw [shape, List.dropLast_concat]
          simpa using inLine'
        · simpa [List.dropLast_concat] using inLine'
      · intro closed
        have closed' : comment ≠ [] →
            '\r' ∉ ((comment ++ (ending ++ rest)).takeWhile (· ≠ '\n')).dropLast :=
          fun some => commentBehind_pads padded stops isComment some ▸ closed
        rcases isComment.skips_or_last isEnd closed' with skips | ⟨rfl, last⟩
        · exact .inl (padSkips.append skips)
        · refine .inr ⟨rfl, fun start tokens next? lexed => ?_⟩
          rw [List.append_nil] at lexed
          exact last.tokens_eq_nil (padSkips _ _ _ _ lexed)
  · rw [if_neg alone] at lines
    obtain rfl : comment = [] := by
      refine Classical.byContradiction fun more => alone ?_
      rw [(ends more).1, (ends more).2]
      rfl
    rw [List.append_nil] at lines
    exact ⟨line ++ indent, [], pads, later, by simp, rfl, lines, .inl rfl,
      padSkips.tokenFree,
      fun mem => inLine (List.dropLast_subset _ mem), fun _ => .inl padSkips⟩

end Showcase.Registry

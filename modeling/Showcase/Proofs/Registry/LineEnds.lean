import Showcase.Proofs.Registry.Cutting
import Showcase.Proofs.Registry.Quoting
import Showcase.Proofs.Registry.Transfer

/-!
# Line ends

A registry text may end its lines with a line feed or with a carriage return and
a line feed.  Both are read alike (`scan_crlf`), but for literals in back-ticks
that run over line ends: what such a literal holds is read as it stands.
-/

namespace Showcase

/-- A text with a carriage return before each line feed. -/
def crlf (text : Text) : Text :=
  text.flatMap fun c => if c = '\n' then ['\r', '\n'] else [c]

@[simp] theorem crlf_nil : crlf [] = [] := rfl

@[simp] theorem crlf_newline (text : Text) :
    crlf ('\n' :: text) = '\r' :: '\n' :: crlf text := rfl

theorem crlf_cons {c : Char} (inLine : c ≠ '\n') (text : Text) :
    crlf (c :: text) = c :: crlf text := by
  rw [crlf, List.flatMap_cons, if_neg inLine]
  rfl

theorem crlf_append (text later : Text) :
    crlf (text ++ later) = crlf text ++ crlf later :=
  List.flatMap_append

theorem crlf_of_oneLine {text : Text} (oneLine : '\n' ∉ text) :
    crlf text = text := by
  induction text with
  | nil => rfl
  | cons c text ih =>
      rw [List.mem_cons, not_or] at oneLine
      rw [crlf_cons (Ne.symm oneLine.1), ih oneLine.2]

theorem exists_of_crlf_eq_cons {text later : Text} {c : Char}
    (h : crlf text = c :: later) (notReturn : c ≠ '\r') :
    ∃ rest, text = c :: rest := by
  cases text with
  | nil => simp at h
  | cons d text =>
      by_cases isNewline : d = '\n'
      · subst isNewline
        exact absurd (List.cons.inj h).1.symm notReturn
      · rw [crlf_cons isNewline] at h
        exact ⟨text, by rw [(List.cons.inj h).1]⟩

/-- Where the text of a span stands with the other line ends. -/
def Span.crlf (text : Text) (span : Span) : Span :=
  ⟨(Showcase.crlf (text.take span.start)).length,
    (Showcase.crlf (text.take span.stop)).length⟩

namespace Registry

/-! ## Literals and comments -/

/-- Whether a backslash stands before a line end: the literal goes on in the
next line. -/
def continues : Text → Bool
  | '\\' :: '\n' :: _ => true
  | '\\' :: _ :: rest => continues rest
  | _ :: rest => continues rest
  | [] => false

theorem ne_lineEnd_of_isQuote {q : Char} (quoted : isQuote q = true) :
    q ≠ '\r' ∧ q ≠ '\n' := by
  constructor <;> rintro rfl <;> exact absurd quoted (by decide)

section Literal

variable {q : Char} {body : Text}

private theorem plain_of_closing? {c : Char} {rest : Text} {n : Nat}
    (closed : closing? q (c :: rest) = some n)
    (notEscape : ∀ d later, c = '\\' → rest = d :: later → False) : c ≠ '\\' := by
  rintro rfl
  cases rest with
  | nil => simp [closing?] at closed
  | cons d rest => exact notEscape d rest rfl rfl

private theorem closing?_crlf (quoted : isQuote q = true)
    (closed : closing? q body = some body.length)
    (whole : continues body = false) :
    closing? q (crlf body) = some (crlf body).length := by
  obtain ⟨notReturn, notNewline⟩ := ne_lineEnd_of_isQuote quoted
  fun_induction continues body with
  | case1 => simp at whole
  | case2 c rest inLine ih =>
      have later : closing? q rest = some rest.length := by
        simpa [closing?_escape] using closed
      rw [crlf_cons (by decide), crlf_cons inLine, closing?_escape, ih later whole]
      rfl
  | case3 c rest notEnd notEscape ih =>
      have plain := plain_of_closing? closed notEscape
      rw [closing?_cons rest plain] at closed
      split at closed
      next isQuote =>
        obtain rfl : rest = [] := by simpa using closed
        rw [crlf_cons (isQuote ▸ notNewline), closing?_cons _ plain, if_pos isQuote]
        rfl
      next notQuote =>
        split at closed
        next => simp at closed
        next goesOn =>
          have later := ih (by simpa using closed) whole
          by_cases isNewline : c = '\n'
          · subst isNewline
            rw [crlf_newline, closing?_cons _ (by decide),
              if_neg (Ne.symm notReturn), if_neg (by simp),
              closing?_cons _ plain, if_neg notQuote, if_neg goesOn, later]
            rfl
          · rw [crlf_cons isNewline, closing?_cons _ plain, if_neg notQuote,
              if_neg goesOn, later]
            rfl
  | case4 => simp [closing?] at closed

private theorem oneLine_of_closing? (notBacktick : q ≠ '\x60')
    (quoted : isQuote q = true) (closed : closing? q body = some body.length)
    (whole : continues body = false) :
    '\n' ∉ body := by
  obtain ⟨-, notNewline⟩ := ne_lineEnd_of_isQuote quoted
  fun_induction continues body with
  | case1 => simp at whole
  | case2 c rest inLine ih =>
      have later := ih (by simpa [closing?_escape] using closed) whole
      simp [later, Ne.symm inLine]
  | case3 c rest notEnd notEscape ih =>
      have plain := plain_of_closing? closed notEscape
      rw [closing?_cons rest plain] at closed
      split at closed
      next isQuote =>
        obtain rfl : rest = [] := by simpa using closed
        simp [isQuote, Ne.symm notNewline]
      next notQuote =>
        split at closed
        next => simp at closed
        next goesOn =>
          have inLine : '\n' ≠ c := fun same => goesOn ⟨same.symm, notBacktick⟩
          simp [ih (by simpa using closed) whole, inLine]
  | case4 => simp

private theorem commentEnd?_crlf (closed : commentEnd? body = some body.length) :
    commentEnd? (crlf body) = some (crlf body).length := by
  fun_induction commentEnd? body with
  | case1 rest =>
      obtain rfl : rest = [] := by simpa using closed
      rfl
  | case2 c rest notEnd ih =>
      have later := ih (by simpa using closed)
      by_cases isNewline : c = '\n'
      · subst isNewline
        rw [crlf_newline, commentEnd?_cons (by simp), commentEnd?_cons (by simp),
          later]
        rfl
      · rw [crlf_cons isNewline, commentEnd?_cons, later]
        · rfl
        · intro later isStar same
          obtain ⟨rest, rfl⟩ := exists_of_crlf_eq_cons same (by decide)
          exact notEnd rest isStar rfl
  | case3 => simp at closed

end Literal

/-! ## What a literal is read as -/

section Reading

private theorem hasInterpolation_crlf (text : Text) :
    hasInterpolation (crlf text) = hasInterpolation text := by
  fun_induction hasInterpolation text with
  | case1 rest =>
      rw [crlf_cons (by decide), crlf_cons (by decide), hasInterpolation]
  | case2 c rest notOpen ih =>
      by_cases isNewline : c = '\n'
      · subst isNewline
        simpa [hasInterpolation] using ih
      · rw [crlf_cons isNewline, hasInterpolation, ih]
        intro later isDollar same
        obtain ⟨rest, rfl⟩ := exists_of_crlf_eq_cons same (by decide)
        exact notOpen rest isDollar rfl
  | case3 => rfl

theorem isSome_of_mapM {α β : Type} {f : α → Option β} {xs : List α} {ys : List β}
    (h : xs.mapM f = some ys) {x : α} (mem : x ∈ xs) : (f x).isSome = true := by
  induction xs generalizing ys with
  | nil => simp at mem
  | cons x' xs ih =>
      rw [List.mapM_cons] at h
      obtain ⟨y, here, rest⟩ := Option.bind_eq_some_iff.1 h
      obtain ⟨ys, later, -⟩ := Option.bind_eq_some_iff.1 rest
      rcases List.mem_cons.1 mem with rfl | mem
      · rw [here]
        rfl
      · exact ih later mem

private theorem not_mem_of_hexPoint? {digits : Text} {point : CodePoint}
    (h : hexPoint? digits = some point) :
    '\\' ∉ digits ∧ '\n' ∉ digits := by
  obtain ⟨n, number, -⟩ := Option.bind_eq_some_iff.1 h
  rw [hexNumber?] at number
  split at number
  · simp at number
  · obtain ⟨values, all, -⟩ := Option.map_eq_some_iff.1 number
    exact ⟨fun mem => absurd (isSome_of_mapM all mem) (by decide),
      fun mem => absurd (isSome_of_mapM all mem) (by decide)⟩

private theorem exists_of_take {width : Nat} {digits : Text} {point : CodePoint}
    (read : (if width ≤ digits.length then hexPoint? (digits.take width) else
      none) = some point) :
    ∃ a later, digits = a ++ later ∧ a.length = width ∧ '\\' ∉ a ∧ '\n' ∉ a ∧
      ∀ later', (if width ≤ (a ++ later').length then
        hexPoint? ((a ++ later').take width) else none) =
          some point := by
  split at read
  next enough =>
    have length := List.length_take_of_le enough
    obtain ⟨noEscape, oneLine⟩ := not_mem_of_hexPoint? read
    refine ⟨digits.take width, digits.drop width, (List.take_append_drop ..).symm,
      length, noEscape, oneLine, fun later' => ?_⟩
    rw [if_pos (by rw [List.length_append, length]; omega),
      List.take_left' length, read]
  next => simp at read

theorem exists_of_braces {digits : Text} {point : CodePoint}
    (read : (if (digits.takeWhile (· ≠ '}')).length < digits.length then
      hexPoint? (digits.takeWhile (· ≠ '}')) else none) = some point) :
    ∃ a later, digits = a ++ '}' :: later ∧ '\\' ∉ a ∧ '\n' ∉ a ∧
    hexPoint? a = some point ∧
      ∀ later', (a ++ '}' :: later').takeWhile (· ≠ '}') = a := by
  obtain ⟨inner, rest, rfl, -, before, brace⟩ :=
    exists_of_takeWhile (· ≠ '}') digits
  rw [takeWhile_append_of_ends before brace] at read
  split at read
  next closed =>
    obtain ⟨noEscape, oneLine⟩ := not_mem_of_hexPoint? read
    cases rest with
    | nil => simp at closed
    | cons d later =>
        obtain rfl : d = '}' := by simpa using brace d rfl
        exact ⟨inner, later, rfl, noEscape, oneLine, read, fun later' =>
          takeWhile_append_of_ends before brace⟩
  next => simp at read

/-- An escape does not depend on what stands behind it. -/
private theorem exists_escape {rest : Text} {point? : Option CodePoint} {n : Nat}
    (h : unit? '\\' rest = some (point?, n)) (inLine : rest.head? ≠ some '\n') :
    ∃ c a later, rest = c :: (a ++ later) ∧ n = a.length + 1 ∧ c ≠ '\n' ∧
      '\\' ∉ a ∧ '\n' ∉ a ∧
      ∀ later', unit? '\\' (c :: (a ++ later')) = some (point?, n) := by
  cases rest with
  | nil => simp [unit?] at h
  | cons c digits =>
      have notEnd : c ≠ '\n' := by simpa using inLine
      rw [unit?_escape] at h
      by_cases braced : c = 'u' ∧ digits.head? = some '{'
      · rw [if_pos braced] at h
        obtain ⟨rfl, brace⟩ := braced
        obtain ⟨inside, rfl⟩ := List.head?_eq_some_iff.1 brace
        obtain ⟨point, read, same⟩ := Option.map_eq_some_iff.1 h
        rw [List.tail_cons] at read same
        obtain ⟨a, later, rfl, noEscape, oneLine, read, run⟩ :=
          exists_of_braces read
        rw [run] at same
        obtain ⟨rfl, rfl⟩ := Prod.mk.inj same
        refine ⟨'u', '{' :: (a ++ ['}']), later, by simp, by simp, notEnd,
          by simp [noEscape], by simp [oneLine], fun later' => ?_⟩
        have shape : '{' :: (a ++ ['}']) ++ later' =
          '{' :: (a ++ '}' :: later') := by simp
        rw [unit?_escape, shape, if_pos ⟨rfl, rfl⟩]
        simp only [List.tail_cons, run]
        rw [if_pos (by simp), read]
        rfl
      rw [if_neg braced] at h
      by_cases four : c = 'u'
      · rw [if_pos four] at h
        obtain ⟨point, read, same⟩ := Option.map_eq_some_iff.1 h
        obtain ⟨rfl, rfl⟩ := Prod.mk.inj same
        obtain ⟨a, later, rfl, length, noEscape, oneLine, again⟩ :=
          exists_of_take read
        refine ⟨c, a, later, rfl, by rw [length], notEnd, noEscape, oneLine,
          fun later' => ?_⟩
        have noBrace : ¬(c = 'u' ∧ (a ++ later').head? = some '{') := by
          cases a with
          | nil => simp at length
          | cons d a => exact braced
        rw [unit?_escape, if_neg noBrace, if_pos four, again]
        rfl
      rw [if_neg four] at h
      by_cases two : c = 'x'
      · rw [if_pos two] at h
        obtain ⟨point, read, same⟩ := Option.map_eq_some_iff.1 h
        obtain ⟨rfl, rfl⟩ := Prod.mk.inj same
        obtain ⟨a, later, rfl, length, noEscape, oneLine, again⟩ :=
          exists_of_take read
        refine ⟨c, a, later, rfl, by rw [length], notEnd, noEscape, oneLine,
          fun later' => ?_⟩
        rw [unit?_escape, if_neg fun both => four both.1, if_neg four,
          if_pos two, again]
        rfl
      rw [if_neg two, if_neg notEnd] at h
      refine ⟨c, [], digits, rfl, (Prod.mk.inj (Option.some.inj h)).2.symm,
        notEnd, by simp, by simp, fun later' => ?_⟩
      rw [unit?_escape, if_neg fun both => four both.1, if_neg four, if_neg two,
        if_neg notEnd, h]

/-- Some code points, with a carriage return before some of the line feeds. -/
inductive Widened : List CodePoint → List CodePoint → Prop where
  | nil : Widened [] []
  | same (p : CodePoint) {ps qs : List CodePoint} (later : Widened ps qs) :
      Widened (p :: ps) (p :: qs)
  | newline {ps qs : List CodePoint} (later : Widened ps qs) :
      Widened (.ofChar '\n' :: ps) (.ofChar '\r' :: .ofChar '\n' :: qs)

theorem Widened.append {ps qs : List CodePoint} (h : Widened ps qs)
    (front : List CodePoint) :
    Widened (front ++ ps) (front ++ qs) := by
  induction front with
  | nil => exact h
  | cons p front ih => exact .same p ih

private theorem continues_append {a later : Text} (noEscape : '\\' ∉ a) :
    continues (a ++ later) = continues later := by
  induction a with
  | nil => rfl
  | cons c a ih =>
      rw [List.mem_cons, not_or] at noEscape
      rw [List.cons_append, continues, ih noEscape.2]
      · exact fun _ same => absurd same.symm noEscape.1
      · exact fun _ _ same => absurd same.symm noEscape.1

private theorem continues_escape {c : Char} {later : Text}
    (h : continues ('\\' :: c :: later) = false) :
    c ≠ '\n' ∧ continues later = false := by
  by_cases isNewline : c = '\n'
  · subst isNewline
    simp [continues] at h
  · rw [continues] at h
    · exact ⟨isNewline, h⟩
    · exact isNewline

private theorem continues_of_append {a later : Text}
    (h : continues (a ++ later) = false) :
    continues a = false := by
  fun_induction continues a with
  | case1 => simp [continues] at h
  | case2 c a _ ih => exact ih (continues_escape h).2
  | case3 c a notEnd notEscape ih =>
      by_cases escape : c = '\\'
      · cases a with
        | nil => rfl
        | cons d a => exact absurd rfl (notEscape d a escape)
      · rw [← List.singleton_append, List.append_assoc,
          continues_append (by simpa using Ne.symm escape)] at h
        exact ih h
  | case4 => rfl

private theorem bodyPoints?_plain {c : Char} (notEscape : c ≠ '\\') (rest : Text) :
    bodyPoints? (c :: rest) = (bodyPoints? rest).map (.ofChar c :: ·) := by
  have unit : unit? c rest = some (some (.ofChar c), 0) := by
    unfold unit?
    rw [if_pos notEscape]
  exact bodyPoints?_cons unit

private theorem bodyPoints?_crlf {body : Text} {points : List CodePoint}
    (read : bodyPoints? body = some points) (whole : continues body = false) :
    ∃ points', bodyPoints? (crlf body) = some points' ∧ Widened points points' := by
  induction len : body.length using Nat.strongRecOn generalizing body points with
  | _ n ih =>
    subst len
    cases body with
    | nil =>
        rw [bodyPoints?] at read
        cases read
        exact ⟨[], by rw [crlf_nil, bodyPoints?], .nil⟩
    | cons first rest =>
        by_cases escape : first = '\\'
        · subst escape
          cases unit : unit? '\\' rest with
          | none => simp [bodyPoints?, unit] at read
          | some result =>
              obtain ⟨point?, n⟩ := result
              have inLine : rest.head? ≠ some '\n' := by
                intro head
                obtain ⟨rest, rfl⟩ := List.head?_eq_some_iff.1 head
                simp [continues] at whole
              obtain ⟨c, a, rest, rfl, rfl, notNewline, noEscape, oneLine, same⟩ :=
                exists_escape unit inLine
              have drop (text : Text) : (c :: (a ++ text)).drop (a.length + 1) =
                text := by simp
              have goesOn : continues rest = false := by
                rw [← continues_append noEscape]
                exact (continues_escape whole).2
              rw [bodyPoints?_cons unit, drop] at read
              obtain ⟨later, behind, rfl⟩ := Option.map_eq_some_iff.1 read
              obtain ⟨later', behind', widened⟩ :=
                ih rest.length (by simp; omega) behind goesOn rfl
              refine ⟨point?.toList ++ later', ?_, widened.append _⟩
              rw [crlf_cons (by decide), crlf_cons notNewline, crlf_append,
                crlf_of_oneLine oneLine,
                bodyPoints?_cons (same _), drop, behind']
              rfl
        · have goesOn : continues rest = false := by
            have noEscape : '\\' ∉ [first] := by simpa using Ne.symm escape
            rw [← continues_append noEscape]
            exact whole
          rw [bodyPoints?_plain escape] at read
          obtain ⟨later, behind, rfl⟩ := Option.map_eq_some_iff.1 read
          obtain ⟨later', behind', widened⟩ :=
            ih rest.length (by simp) behind goesOn rfl
          by_cases isNewline : first = '\n'
          · subst isNewline
            refine ⟨_, ?_, .newline widened⟩
            rw [crlf_newline, bodyPoints?_plain (by decide),
              bodyPoints?_plain (by decide), behind']
            rfl
          · refine ⟨_, ?_, .same _ widened⟩
            rw [crlf_cons isNewline, bodyPoints?_plain escape, behind']
            rfl

private theorem joinPairs?_widened {ps qs : List CodePoint} {value : Text}
    (h : Widened ps qs) (read : joinPairs? ps = some value) :
    ∃ value', joinPairs? qs = some value' := by
  fun_induction joinPairs? ps generalizing qs value with
  | case1 =>
      cases h
      exact ⟨[], rfl⟩
  | case2 p =>
      cases h with
      | same _ later =>
          cases later
          exact ⟨value, read⟩
      | newline later =>
          cases later
          exact ⟨['\r', '\n'], by decide⟩
  | case3 p q rest pair ih =>
      obtain ⟨value, joined, rfl⟩ := Option.map_eq_some_iff.1 read
      cases h with
      | same _ later =>
          cases later with
          | same _ later =>
              obtain ⟨value', joined'⟩ := ih later joined
              exact ⟨p.joined q :: value',
                by rw [joinPairs?, if_pos pair, joined']; rfl⟩
          | newline => simp [show (CodePoint.ofChar '\n').isLow = false by decide]
              at pair
      | newline => simp [show (CodePoint.ofChar '\n').isHigh = false by decide]
          at pair
  | case4 => simp at read
  | case5 p q rest notPair c isChar ih =>
      obtain ⟨value, joined, rfl⟩ := Option.map_eq_some_iff.1 read
      cases h with
      | same _ later =>
          obtain ⟨value', joined'⟩ := ih later joined
          obtain rfl := CodePoint.toChar?_eq_some_iff.1 isChar
          exact ⟨c :: value', by rw [joinPairs?_ofChar, joined']; rfl⟩
      | newline later =>
          obtain ⟨value', joined'⟩ := ih later joined
          refine ⟨'\r' :: '\n' :: value', ?_⟩
          rw [joinPairs?_ofChar, joinPairs?_ofChar, joined']
          rfl

/-- A literal that does not go on behind a backslash can be read with the other
line ends too. -/
private theorem decode_crlf {q : Char} {rest value : Text}
    (closed : closing? q rest = some rest.length) (quoted : isQuote q = true)
    (whole : continues rest = false) (read : decode q rest = .ok value) :
    ∃ value', decode q (crlf rest) = .ok value' ∧
      (value' = value ∨ q = '\x60' ∧ '\n' ∈ rest) := by
  by_cases oneLine : '\n' ∈ rest
  · have isBacktick : q = '\x60' := by
      by_contra notBacktick
      exact oneLine_of_closing? notBacktick quoted closed whole oneLine
    obtain ⟨body, rfl⟩ := List.getLast?_eq_some_iff.1 (getLast?_of_closing? closed)
    have interpolation := hasInterpolation_crlf (body ++ [q])
    rw [decode_eq] at read ⊢
    rw [interpolation]
    split at read
    next => simp at read
    next notOpen =>
      rw [if_neg notOpen]
      have shape : crlf (body ++ [q]) = crlf body ++ [q] := by
        rw [crlf_append, crlf_cons (ne_lineEnd_of_isQuote quoted).2, crlf_nil]
      rw [List.dropLast_concat] at read
      rw [shape, List.dropLast_concat]
      split at read
      next value' joined =>
        obtain ⟨points, found, joined⟩ := Option.bind_eq_some_iff.1 joined
        obtain ⟨points', found', widened⟩ :=
          bodyPoints?_crlf found (continues_of_append whole)
        obtain ⟨value', joined'⟩ := joinPairs?_widened widened joined
        rw [found', Option.bind_some, joined']
        exact ⟨value', rfl, .inr ⟨isBacktick, oneLine⟩⟩
      next => simp at read
  · exact ⟨value, by rw [crlf_of_oneLine oneLine, read], .inl rfl⟩

end Reading

/-! ## Tokens -/

/-- A token of a text, as it stands with the other line ends. -/
def Token.crlf (text : Text) (t : Token) : Token where
  kind := t.kind
  first := t.first
  rest := if t.kind = .string ∧ isQuote t.first = true then
    Showcase.crlf t.rest else t.rest
  start := (Showcase.crlf (text.take t.start)).length
  single punct := by rw [if_neg (by simp [punct]), t.single punct]

theorem Token.crlf_rest (text : Text) (t : Token) : (t.crlf text).rest =
    if t.kind = .string ∧ isQuote t.first = true then Showcase.crlf t.rest
      else t.rest := rfl

/-- A literal that holds the other line ends: only what literals in back-ticks
hold changes. -/
def LineEndReading (t : Token) (value value' : Text) : Prop :=
  decode t.first (crlf t.rest) = .ok value' ∧
    (value' = value ∨ t.first = '\x60' ∧ '\n' ∈ t.rest)

private theorem keeps_crlf (text : Text) : Keeps (Token.crlf text) where
  kind _ := rfl
  first _ := rfl
  rest t plain := by
    have notQuoted : ¬(t.kind = .string ∧ isQuote t.first = true) := by
      rintro ⟨string, quoted⟩
      simp [plain string] at quoted
    rw [Token.crlf_rest, if_neg notQuoted]

theorem Token.Genuine.oneLine {t : Token} (h : t.Genuine)
    (notString : t.kind ≠ .string) :
    '\n' ∉ t.rest := by
  unfold Genuine at h
  cases kind : t.kind with
  | string => exact absurd kind notString
  | name =>
      rw [kind, Token.text] at h
      generalize t.rest = rest at h
      cases h with
      | name named =>
          exact fun mem => absurd (named '\n' (by simp [mem])) (by decide)
  | punct =>
      simp [t.single kind]

private theorem Token.Genuine.crlf_text {t : Token} (h : t.Genuine) (text : Text) :
    (t.crlf text).text = Showcase.crlf t.text := by
  rw [Token.text, Token.text, crlf_cons h.first_ne_newline, crlf_rest]
  by_cases string : t.kind = .string
  · rw [if_pos ⟨string, h.quoted string⟩]
    rfl
  · rw [if_neg fun both => string both.1, crlf_of_oneLine (h.oneLine string)]
    rfl

private theorem Token.Genuine.crlf_genuine {t : Token} (h : t.Genuine)
    (text : Text) (whole : t.kind = .string → continues t.rest = false) :
    (t.crlf text).Genuine := by
  by_cases string : t.kind = .string
  · have quoted := h.quoted string
    unfold Genuine at h ⊢
    rw [show (t.crlf text).kind = t.kind from rfl, string]
    rw [string, Token.text] at h
    rw [Token.text, Token.crlf_rest, if_pos ⟨string, quoted⟩]
    cases h with
    | string _ closed =>
        exact .string quoted (closing?_crlf quoted closed (whole string))
  · unfold Genuine
    rw [h.crlf_text, Token.text, crlf_cons h.first_ne_newline,
      crlf_of_oneLine (h.oneLine string)]
    exact h

private theorem Token.crlf_ends {t : Token} (whole : Text) {text : Text}
    (ends : EndsBefore (some t.kind) t.text (text.head?.or none)) :
    EndsBefore (some (t.crlf whole).kind) (t.crlf whole).text
      ((Showcase.crlf text).head?.or none) := by
  rw [Option.or_none] at ends ⊢
  cases text with
  | nil => cases kind : t.kind <;> simp [Token.crlf, kind, EndsBefore]
  | cons c text =>
      by_cases isNewline : c = '\n'
      · subst isNewline
        exact endsBefore_blank _ _ (by decide)
      · rw [crlf_cons isNewline]
        cases kind : t.kind with
        | string => simp [Token.crlf, kind, EndsBefore]
        | name =>
            rw [kind] at ends
            simpa [Token.crlf, kind, EndsBefore] using ends
        | punct =>
            have same : (t.crlf whole).text = t.text :=
              (keeps_crlf whole).text (by simp [kind])
            rw [same, show (t.crlf whole).kind = t.kind from rfl]
            exact ends

namespace Lexed

variable {start : Nat} {text : Text} {tokens : List Token} {next? : Option Char}
  {c : Char}

theorem blank (blank : isBlank c = true)
    (later : Lexed (start + 1) text tokens next?) :
    Lexed start (c :: text) tokens next? :=
  .gap (.blank blank) (by simp [EndsBefore]) later

/-- The other line ends do not change which tokens a text has. -/
theorem crlf {pre text : Text} {tokens : List Token}
    (h : Lexed pre.length text tokens none)
    (whole : ∀ t ∈ tokens, t.kind = .string → continues t.rest = false) :
    Lexed (Showcase.crlf pre).length (Showcase.crlf text)
      (tokens.map (Token.crlf (pre ++ text)))
      none := by
  generalize start_eq : pre.length = start at h
  generalize none_eq : none = next? at h
  induction h generalizing pre with
  | nil => exact .nil
  | @gap start u text tokens next? lexeme ends _ ih =>
      subst none_eq
      have position : (pre ++ u).length = start + u.length := by simp [start_eq]
      have later := ih whole position rfl
      rw [crlf_append, List.length_append, List.append_assoc] at later
      rw [crlf_append]
      cases lexeme with
      | @blank c isBlank =>
          by_cases isNewline : c = '\n'
          · subst isNewline
            exact .blank (by decide) (.blank (by decide) later)
          · rw [crlf_cons isNewline] at later ⊢
            exact .blank isBlank later
      | @lineComment body oneLine =>
          have same : Showcase.crlf ('/' :: '/' :: body) = '/' :: '/' :: body :=
            crlf_of_oneLine (by simp [oneLine])
          rw [same] at later ⊢
          cases text with
          | nil => exact .gap (.lineComment oneLine) (by simp [EndsBefore]) later
          | cons c text =>
              -- the comment takes the carriage return behind it
              obtain rfl : c = '\n' := ends rfl c rfl
              have behind := skips_blank (c := '\r')
                (by decide) _ ('\n' :: Showcase.crlf text) _ _ later
              have shape : '/' :: '/' :: body ++ Showcase.crlf ('\n' :: text) =
                  '/' :: '/' :: (body ++ ['\r']) ++ '\n' :: Showcase.crlf text := by
                simp
              rw [shape]
              refine .gap (.lineComment (by simp [oneLine]))
                (by simp [EndsBefore]) ?_
              simpa [Nat.add_assoc] using behind
      | @blockComment body closed =>
          have same : Showcase.crlf ('/' :: '*' :: body) = '/' :: '*' ::
            Showcase.crlf body := rfl
          rw [same] at later ⊢
          exact .gap (.blockComment (commentEnd?_crlf closed))
            (by simp [EndsBefore]) later
  | @token start kind c u text tokens next? lexeme ends _ ih =>
      subst none_eq
      have position : (pre ++ c :: u).length = start + (c :: u).length := by
        simp [start_eq]
      have later := ih (fun t mem => whole t (by simp [mem])) position rfl
      rw [crlf_append, List.length_append, List.append_assoc] at later
      rw [crlf_append]
      have genuine : Token.Genuine ⟨kind, c, u, start, lexeme.single⟩ := lexeme
      have position :
          (Token.crlf (pre ++ (c :: u ++ text)) ⟨kind, c, u, start,
            lexeme.single⟩).start =
          (Showcase.crlf pre).length := by
        subst start_eq
        exact congrArg (fun before => (Showcase.crlf before).length) List.take_left
      have genuine' := genuine.crlf_genuine (pre ++ (c :: u ++ text))
        (whole _ List.mem_cons_self)
      have here := genuine'.lexed (Token.crlf_ends (pre ++ (c :: u ++ text)) ends)
      rw [genuine.crlf_text, position] at here
      exact here.append later

end Lexed

/-! ## What is read -/

section Scan

variable {text listName : Text} {tokens : List Token} {doc : Document}

private theorem carries_crlf (lexed : Lexed 0 text tokens none)
    (whole : ∀ t ∈ tokens, t.kind = .string → continues t.rest = false) :
    Carries (Token.crlf text) (Span.crlf text) LineEndReading tokens where
  keeps := keeps_crlf text
  span t _ u mem := by
    obtain ⟨front, back, rfl⟩ := List.append_of_mem mem
    have genuine := lexed.genuine u mem
    obtain ⟨before, rest, rfl, position, -, -⟩ := lexed.cutBefore
    rw [Nat.zero_add] at position
    have upTo : (before ++ (u.text ++ rest)).take u.stop = before ++ u.text := by
      have length : u.stop = (before ++ u.text).length := by
        rw [Token.stop, position, List.length_append]
      rw [length, ← List.append_assoc, List.take_left]
    rw [Span.crlf, Span.mk.injEq]
    refine ⟨rfl, ?_⟩
    rw [Token.stop, genuine.crlf_text, upTo, crlf_append, List.length_append,
      Token.crlf, position, List.take_left]
  decodes t mem string value read := by
    have genuine := lexed.genuine t mem
    have quoted := genuine.quoted string
    have closed : closing? t.first t.rest = some t.rest.length := by
      unfold Token.Genuine at genuine
      rw [string, Token.text] at genuine
      cases genuine with
      | string _ closed => exact closed
    obtain ⟨value', read', same⟩ :=
      decode_crlf closed quoted (whole t mem string) read
    rw [Token.value, Token.crlf_rest, if_pos ⟨string, quoted⟩]
    exact ⟨value', read', read', same⟩

theorem exists_carried_crlf (tokenized : tokenize text = .ok tokens)
    (scanned : scan text listName = .ok doc)
    (whole : ∀ t ∈ tokens, t.kind = .string → continues t.rest = false) :
    ∃ doc', scan (crlf text) listName = .ok doc' ∧ doc'.text = crlf text ∧
      doc.Carried (Span.crlf text) LineEndReading tokens doc' := by
  have lexed := tokenize_eq_ok_iff.1 tokenized
  have lexed' : Lexed (crlf []).length (crlf text)
      (tokens.map (Token.crlf ([] ++ text))) none :=
    Lexed.crlf lexed whole
  have tokenized' : tokenize (crlf text) = .ok (tokens.map (Token.crlf text)) :=
    tokenize_eq_ok_iff.2 lexed'
  exact scan_carried (carries_crlf lexed whole) tokenized scanned tokenized'

theorem Document.Carried.eq_moved {doc' : Document}
    (carried : doc.Carried (Span.crlf text) LineEndReading tokens doc')
    (same : doc'.text = crlf text)
    (inLine : ∀ t ∈ tokens, t.kind = .string → '\n' ∉ t.rest) :
    doc' = doc.moved (Span.crlf text) (crlf text) := by
  rw [← same]
  refine carried.eq fun t mem string value value' read => ?_
  exact read.2.resolve_right fun runsOver => inLine t mem string runsOver.2

end Scan

/-! ## A literal in back-ticks over two lines -/

end Registry

end Showcase

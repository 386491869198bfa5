import Mathlib.Data.List.TakeWhile
import Showcase.Proofs.Outcome
import Showcase.Registry.Token

/-!
# Lexemes

A text is read as a sequence of lexemes: tokens, comments and single white space
characters.  Each kind of lexeme ends by itself, or where the next character
cannot belong to it.  `piece_lexeme` and `lexeme_of_piece` say that the pieces
the tokenizer takes are exactly these.
-/

namespace Showcase.Registry

/-! ## Single lexemes -/

/-- A token of some kind, or with `none` a comment or a white space character. -/
inductive Lexeme : Option TokenKind → Text → Prop where
  | blank {c : Char} (blank : isBlank c = true) : Lexeme none [c]
  | lineComment {body : Text} (oneLine : '\n' ∉ body) :
      Lexeme none ('/' :: '/' :: body)
  | blockComment {body : Text} (closed : commentEnd? body = some body.length) :
      Lexeme none ('/' :: '*' :: body)
  | string {q : Char} {body : Text} (quoted : isQuote q = true)
      (closed : closing? q body = some body.length) :
      Lexeme (some .string) (q :: body)
  | name {c : Char} {cs : Text} (named : ∀ d ∈ c :: cs, isNameChar d = true) :
      Lexeme (some .name) (c :: cs)
  | punct {c : Char} (notBlank : isBlank c = false) (notQuote : isQuote c = false)
      (notNamed : isNameChar c = false) : Lexeme (some .punct) [c]

/-- Whether a lexeme ends before the character that follows it, if any. -/
def EndsBefore : Option TokenKind → Text → Option Char → Prop
  | some .name, _, next? => ∀ c ∈ next?, isNameChar c = false
  | some .string, _, _ => True
  | some .punct, u, next? => u = ['/'] → ∀ c ∈ next?, c ≠ '/' ∧ c ≠ '*'
  | none, u, next? => u.take 2 = ['/', '/'] → ∀ c ∈ next?, c = '\n'

theorem Lexeme.single {kind : TokenKind} {c : Char} {u : Text}
    (h : Lexeme (some kind) (c :: u)) (punct : kind = .punct) : u = [] := by
  subst punct
  cases h with
  | punct => rfl

theorem Lexeme.ofKind_eq {kind : TokenKind} {c : Char} {u : Text}
    (h : Lexeme (some kind) (c :: u)) (start : Nat) :
    Token.ofKind kind c u start = ⟨kind, c, u, start, h.single⟩ := by
  cases kind with
  | punct =>
      obtain rfl := h.single rfl
      rfl
  | _ => rfl

theorem Lexeme.ne_nil {kind? : Option TokenKind} {u : Text}
    (h : Lexeme kind? u) : u ≠ [] := by
  cases h <;> simp

/-! ## White space, quotes and names are disjoint -/

/-- The numbers of the white space characters, one by one. -/
def blankNumbers : List Nat :=
  [0x09, 0x0A, 0x0B, 0x0C, 0x0D, 0x1C, 0x1D, 0x1E, 0x1F, 0x20, 0x85, 0xA0, 0x1680,
    0x2000, 0x2001,
   0x2002, 0x2003, 0x2004, 0x2005, 0x2006, 0x2007, 0x2008, 0x2009, 0x200A, 0x2028,
   0x2029, 0x202F, 0x205F, 0x3000]

private theorem mem_blankNumbers {c : Char} (h : isBlank c = true) :
    c.toNat ∈ blankNumbers := by
  simp only [isBlank, covers, blankRanges, List.any_cons, List.any_nil,
    Bool.or_false, Bool.or_eq_true, Bool.and_eq_true, decide_eq_true_eq] at h
  simp only [blankNumbers, List.mem_cons, List.not_mem_nil, or_false]
  omega

theorem isNameChar_of_isBlank {c : Char} (h : isBlank c = true) :
    isNameChar c = false := by
  have all : ∀ n ∈ blankNumbers, isNameChar (Char.ofNat n) = false := by
    decide +kernel
  simpa using all c.toNat (mem_blankNumbers h)

theorem isNameChar_of_isQuote {c : Char} (h : isQuote c = true) :
    isNameChar c = false := by
  simp only [isQuote, Bool.or_eq_true, beq_iff_eq] at h
  rcases h with (rfl | rfl) | rfl <;> decide

/-! ## The first piece -/

theorem tokensFrom_gap {start n : Nat} {c : Char} {rest : Text}
    (h : piece c rest = .ok (none, n)) :
    tokensFrom start (c :: rest) = tokensFrom (start + 1 + n) (rest.drop n) := by
  rw [tokensFrom, h]
  cases hl : tokensFrom (start + 1 + n) (rest.drop n) <;>
    simp [bind, Except.bind, pure, Except.pure, hl]

theorem tokensFrom_token {start n : Nat} {kind : TokenKind} {c : Char} {rest : Text}
    (h : piece c rest = .ok (some kind, n)) :
    tokensFrom start (c :: rest) =
      (tokensFrom (start + 1 + n) (rest.drop n)).map
        (.ofKind kind c (rest.take n) start :: ·) := by
  rw [tokensFrom, h]
  cases hl : tokensFrom (start + 1 + n) (rest.drop n) <;>
    simp [bind, Except.bind, pure, Except.pure, hl, Except.map]

private theorem piece_of_isBlank {c : Char} (rest : Text) (h : isBlank c = true) :
    piece c rest = .ok (none, (rest.takeWhile isBlank).length) := by
  simp [piece, h]

theorem tokensFrom_blank {start : Nat} {c : Char} (text : Text)
    (h : isBlank c = true) :
    tokensFrom start (c :: text) = tokensFrom (start + 1) text := by
  rw [tokensFrom_gap (piece_of_isBlank text h)]
  cases text with
  | nil => rfl
  | cons d text =>
      by_cases hd : isBlank d = true
      · rw [tokensFrom_gap (piece_of_isBlank text hd)]
        simp [hd]
        congr 1
        omega
      · simp [hd]

theorem commentEnd?_cons {c : Char} {rest : Text}
    (h : ∀ later, c = '*' → rest = '/' :: later → False) :
    commentEnd? (c :: rest) = (commentEnd? rest).map (· + 1) := by
  rw [commentEnd?]
  exact h

theorem commentEnd?_append {body : Text} {n : Nat} (text : Text)
    (h : commentEnd? body = some n) :
    commentEnd? (body ++ text) = some n := by
  fun_induction commentEnd? body generalizing n with
  | case1 rest => simpa [commentEnd?] using h
  | case2 c rest notEnd ih =>
      obtain ⟨m, hm, rfl⟩ := Option.map_eq_some_iff.1 h
      have := ih hm
      rw [List.cons_append, commentEnd?, this]
      · rfl
      · intro rest' h1 h2
        cases rest with
        | nil => simp [commentEnd?] at hm
        | cons d rest =>
          simp at h2
          exact notEnd rest h1 (by simp [h2.1])
  | case3 => simp at h

theorem closing?_escape (q c : Char) (rest : Text) :
    closing? q ('\\' :: c :: rest) = (closing? q rest).map (· + 2) := by
  simp [closing?]

theorem closing?_cons {q c : Char} (rest : Text) (h : c ≠ '\\') :
    closing? q (c :: rest) =
      if c = q then some 1
      else if c = '\n' ∧ q ≠ '\x60' then none
      else (closing? q rest).map (· + 1) := by
  rw [closing?]
  · intro hc
    contradiction
  · intro d rest hc
    contradiction

private theorem ne_backslash {c : Char} {rest : Text}
    (lone : c = '\\' → rest = [] → False)
    (pair : ∀ d later, c = '\\' → rest = d :: later → False) : c ≠ '\\' := by
  intro hc
  cases rest with
  | nil => exact lone hc rfl
  | cons d later => exact pair d later hc rfl

theorem closing?_append {q : Char} {body : Text} {n : Nat} (text : Text)
    (h : closing? q body = some n) : closing? q (body ++ text) = some n := by
  fun_induction closing? q body generalizing n with
  | case1 => simp at h
  | case2 => simp at h
  | case3 c rest ih =>
      obtain ⟨m, hm, rfl⟩ := Option.map_eq_some_iff.1 h
      simp [closing?_escape, ih hm]
  | case4 rest lone pair =>
      rw [List.cons_append, closing?_cons _ (ne_backslash lone pair)]
      simpa using h
  | case5 => simp at h
  | case6 c rest lone pair notQuote inLine ih =>
      obtain ⟨m, hm, rfl⟩ := Option.map_eq_some_iff.1 h
      rw [List.cons_append, closing?_cons _ (ne_backslash lone pair),
        if_neg notQuote, if_neg inLine, ih hm]
      rfl

/-- A closed literal is a text of its own: its end does not depend on what
follows. -/
private theorem exists_of_closing? {q : Char} {text : Text} {n : Nat}
    (h : closing? q text = some n) :
    ∃ body rest, text = body ++ rest ∧ body.length = n ∧
      closing? q body = some n := by
  fun_induction closing? q text generalizing n with
  | case1 => simp at h
  | case2 => simp at h
  | case3 c text ih =>
      obtain ⟨m, hm, rfl⟩ := Option.map_eq_some_iff.1 h
      obtain ⟨body, rest, rfl, rfl, closed⟩ := ih hm
      exact ⟨'\\' :: c :: body, rest, rfl, rfl,
        by rw [closing?_escape, closed]; rfl⟩
  | case4 text lone pair =>
      cases h
      exact ⟨[q], text, rfl, rfl, by
        rw [closing?_cons [] (ne_backslash lone pair), if_pos rfl]⟩
  | case5 => simp at h
  | case6 c text lone pair notQuote inLine ih =>
      obtain ⟨m, hm, rfl⟩ := Option.map_eq_some_iff.1 h
      obtain ⟨body, rest, rfl, rfl, closed⟩ := ih hm
      refine ⟨c :: body, rest, rfl, rfl, ?_⟩
      rw [closing?_cons body (ne_backslash lone pair), if_neg notQuote,
        if_neg inLine, closed]
      rfl

theorem getLast?_of_closing? {q : Char} {body : Text}
    (h : closing? q body = some body.length) :
    body.getLast? = some q := by
  fun_induction closing? q body with
  | case1 => simp at h
  | case2 => simp at h
  | case3 c rest ih =>
      have last := ih (by simpa using h)
      simp [List.getLast?_cons, last]
  | case4 rest lone pair =>
      have alone : rest = [] := by simpa using h
      simp [alone]
  | case5 => simp at h
  | case6 c rest lone pair notQuote inLine ih =>
      have last := ih (by simpa using h)
      simp [List.getLast?_cons, last]

private theorem exists_of_commentEnd? {text : Text} {n : Nat}
    (h : commentEnd? text = some n) :
    ∃ body rest, text = body ++ rest ∧ body.length = n ∧
      commentEnd? body = some n := by
  fun_induction commentEnd? text generalizing n with
  | case1 rest =>
      cases h
      exact ⟨['*', '/'], rest, rfl, rfl, rfl⟩
  | case2 c text notEnd ih =>
      obtain ⟨m, hm, rfl⟩ := Option.map_eq_some_iff.1 h
      obtain ⟨body, rest, rfl, rfl, closed⟩ := ih hm
      refine ⟨c :: body, rest, rfl, rfl, ?_⟩
      rw [commentEnd?_cons, closed]
      · rfl
      · intro later hc hb
        exact notEnd (later ++ rest) hc (by rw [hb]; rfl)
  | case3 => simp at h

theorem getLast?_of_commentEnd? {body : Text}
    (h : commentEnd? body = some body.length) :
    body.getLast? = some '/' := by
  fun_induction commentEnd? body with
  | case1 rest =>
      have alone : rest = [] := by simpa using h
      simp [alone]
  | case2 c rest notEnd ih =>
      have last := ih (by simpa using h)
      simp [List.getLast?_cons, last]
  | case3 => simp at h

/-! ## Pieces are lexemes -/

theorem takeWhile_append_of_ends {p : Char → Bool} {u text : Text}
    (all : ∀ c ∈ u, p c = true) (ends : ∀ c ∈ text.head?, p c = false) :
    (u ++ text).takeWhile p = u := by
  rw [List.takeWhile_append_of_pos all]
  cases text with
  | nil => simp
  | cons c text => simp [ends c (by simp)]

theorem piece_lexeme {kind? : Option TokenKind} {c : Char} {u text : Text}
    (lexeme : Lexeme kind? (c :: u))
    (ends : EndsBefore kind? (c :: u) text.head?)
    (notBlank : isBlank c = false) :
    piece c (u ++ text) = .ok (kind?, u.length) := by
  cases lexeme with
  | blank blank => simp [blank] at notBlank
  | @lineComment body oneLine =>
      have run : ('/' :: body ++ text).takeWhile (· ≠ '\n') = '/' :: body := by
        apply takeWhile_append_of_ends
        · intro d hd
          simp only [List.mem_cons] at hd
          rcases hd with rfl | hd
          · decide
          · simpa using fun h : d = '\n' => oneLine (h ▸ hd)
        · intro d hd
          simpa using ends (by simp) d hd
      simp only [piece, notBlank]
      simp at run ⊢
      simp [run]
  | @blockComment body closed =>
      have := commentEnd?_append text closed
      simp [piece, notBlank, this]
  | string quoted closed =>
      have notSlash : c ≠ '/' := by
        rintro rfl
        simp [isQuote] at quoted
      simp [piece, notBlank, notSlash, quoted, closing?_append text closed]
  | name named =>
      have notSlash : c ≠ '/' := by
        rintro rfl
        exact absurd (named '/' (by simp)) (by decide)
      have notQuote : isQuote c = false := by
        by_contra quoted
        have := isNameChar_of_isQuote (by simpa using quoted)
        simp [named c] at this
      have run : (u ++ text).takeWhile isNameChar = u :=
        takeWhile_append_of_ends (fun d hd => named d (by simp [hd])) ends
      simp [piece, notBlank, notSlash, notQuote, run, named c]
  | punct _ notQuote notNamed =>
      have notComment (d : Char) (hd : d = '/' ∨ d = '*') :
          ¬(c = '/' ∧ text.head? = some d) := by
        rintro ⟨rfl, next⟩
        have := ends rfl d next
        rcases hd with rfl | rfl <;> simp at this
      simp [piece, notBlank, notQuote, notNamed, notComment]

theorem exists_of_takeWhile (p : Char → Bool) (text : Text) :
    ∃ u rest, text = u ++ rest ∧ u.length = (text.takeWhile p).length ∧
      (∀ c ∈ u, p c = true) ∧ ∀ c ∈ rest.head?, p c = false := by
  refine ⟨text.takeWhile p, text.dropWhile p, ?_, rfl, ?_, ?_⟩
  · exact (List.takeWhile_append_dropWhile).symm
  · intro c hc
    exact List.mem_takeWhile_imp hc
  · intro c hc
    have := List.head?_dropWhile_not p text
    cases hd : text.dropWhile p with
    | nil => simp [hd] at hc
    | cons d rest =>
        simp only [hd, List.head?_cons, Option.mem_some_iff] at hc this
        subst hc
        simpa using this

theorem lexeme_of_piece {kind? : Option TokenKind} {c : Char} {text : Text}
    {n : Nat} (h : piece c text = .ok (kind?, n))
    (notBlank : isBlank c = false) :
    ∃ u rest, text = u ++ rest ∧ u.length = n ∧ Lexeme kind? (c :: u) ∧
      EndsBefore kind? (c :: u) rest.head? := by
  unfold piece at h
  split at h
  · simp_all
  split at h
  next _ comment => -- two slashes: up to the end of the line
    obtain ⟨rfl, next⟩ := comment
    obtain ⟨body, rfl⟩ := List.head?_eq_some_iff.1 next
    cases h
    obtain ⟨u, rest, rfl, len, inLine, ends⟩ := exists_of_takeWhile (· ≠ '\n') body
    refine ⟨'/' :: u, rest, rfl, ?_, .lineComment ?_, ?_⟩
    · rw [List.takeWhile_cons_of_pos (by decide), List.length_cons,
        List.length_cons, len]
    · intro inside
      simpa using inLine '\n' inside
    · intro _ d hd
      simpa using ends d hd
  split at h
  next _ _ comment => -- a slash and a star: up to the first star and slash
    obtain ⟨rfl, next⟩ := comment
    obtain ⟨body, rfl⟩ := List.head?_eq_some_iff.1 next
    split at h
    next m closed =>
      cases h
      obtain ⟨u, rest, rfl, rfl, closed⟩ := exists_of_commentEnd? closed
      exact ⟨'*' :: u, rest, rfl, rfl, .blockComment closed, by simp [EndsBefore]⟩
    next => simp at h
  split at h
  next _ _ _ quoted => -- a quote: up to the next one that no backslash escapes
    split at h
    next n closed =>
      cases h
      obtain ⟨u, rest, rfl, rfl, closed⟩ := exists_of_closing? closed
      exact ⟨u, rest, rfl, rfl, .string quoted closed, trivial⟩
    next => simp at h
  split at h
  next _ _ _ notQuote named =>
    cases h
    obtain ⟨u, rest, rfl, len, all, ends⟩ := exists_of_takeWhile isNameChar text
    refine ⟨u, rest, rfl, len, .name ?_, ends⟩
    intro d hd
    rcases List.mem_cons.1 hd with rfl | hd
    · exact named
    · exact all d hd
  next _ noLine noBlock notQuote notNamed =>
    -- a slash alone is punctuation, as neither comment has opened
    cases h
    refine ⟨[], text, rfl, rfl,
      .punct notBlank (by simpa using notQuote) (by simpa using notNamed), ?_⟩
    intro slash d hd
    obtain rfl : c = '/' := by simpa using slash
    constructor
    · rintro rfl
      exact noLine ⟨rfl, hd⟩
    · rintro rfl
      exact noBlock ⟨rfl, hd⟩

end Showcase.Registry

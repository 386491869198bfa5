import Showcase.Proofs.Registry.LineEnds

/-!
# Texts that are read with either line ends

A text with the other line ends has tokens only if the text itself has, so where
no literal runs over a line end a text is read exactly if it is read with the
other line ends (`scan_crlf_eq`).
-/

namespace Showcase

theorem exists_of_crlf_eq_append {text u later : Text}
    (h : crlf text = u ++ later) (inLine : ∀ c ∈ u, c ≠ '\r' ∧ c ≠ '\n') :
    ∃ rest, text = u ++ rest ∧ crlf rest = later := by
  induction u generalizing text with
  | nil => exact ⟨text, rfl, h⟩
  | cons c u ih =>
      obtain ⟨notReturn, notNewline⟩ := inLine c (by simp)
      obtain ⟨rest, rfl⟩ := exists_of_crlf_eq_cons h notReturn
      rw [crlf_cons notNewline] at h
      obtain ⟨rest, rfl, same⟩ := ih (List.cons.inj h).2 fun d mem =>
        inLine d (by simp [mem])
      exact ⟨rest, rfl, same⟩

namespace Registry

/-! ## Literals and comments -/

section Pieces

variable {q : Char} {text : Text} {n : Nat}

private theorem closing?_of_crlf (quoted : isQuote q = true)
    (closed : closing? q (crlf text) = some n) :
    ∃ body rest, text = body ++ rest ∧ closing? q body = some body.length ∧
      (crlf body).length = n := by
  obtain ⟨notReturn, notNewline⟩ := ne_lineEnd_of_isQuote quoted
  fun_induction closing? q text generalizing n with
  | case1 => simp [closing?] at closed
  | case2 =>
      rw [crlf_cons (by decide)] at closed
      simp [closing?] at closed
  | case3 c text ih =>
      by_cases isNewline : c = '\n'
      · -- the backslash takes the carriage return, and the line feed stands alone
        subst isNewline
        rw [crlf_cons (by decide), crlf_newline, closing?_escape,
          closing?_cons _ (by decide), if_neg (Ne.symm notNewline)] at closed
        split at closed
        next => simp at closed
        next =>
          simp only [Option.map_map] at closed
          obtain ⟨m, later, rfl⟩ := Option.map_eq_some_iff.1 closed
          obtain ⟨body, rest, rfl, closed', rfl⟩ := ih later
          refine ⟨'\\' :: '\n' :: body, rest, rfl,
            by rw [closing?_escape, closed']; rfl, ?_⟩
          rw [crlf_cons (by decide), crlf_newline]
          rfl
      · rw [crlf_cons (by decide), crlf_cons isNewline, closing?_escape] at closed
        obtain ⟨m, later, rfl⟩ := Option.map_eq_some_iff.1 closed
        obtain ⟨body, rest, rfl, closed', rfl⟩ := ih later
        refine ⟨'\\' :: c :: body, rest, rfl,
          by rw [closing?_escape, closed']; rfl, ?_⟩
        rw [crlf_cons (by decide), crlf_cons isNewline]
        rfl
  | case4 text lone pair =>
      have plain : q ≠ '\\' := by
        rintro rfl
        simp [isQuote] at quoted
      rw [crlf_cons notNewline, closing?_cons _ plain, if_pos rfl] at closed
      cases closed
      exact ⟨[q], text, rfl, by rw [closing?_cons _ plain, if_pos rfl]; rfl, by
        rw [crlf_cons notNewline]; rfl⟩
  | case5 c text lone pair notQuote lineEnd =>
      obtain ⟨rfl, notBacktick⟩ := lineEnd
      rw [crlf_newline, closing?_cons _ (by decide), if_neg (Ne.symm notReturn),
        if_neg (by simp),
        closing?_cons _ (by decide), if_neg notQuote, if_pos ⟨rfl, notBacktick⟩]
          at closed
      simp at closed
  | case6 c text lone pair notQuote goesOn ih =>
      have plain : c ≠ '\\' := by
        rintro rfl
        cases text with
        | nil => exact lone rfl rfl
        | cons d text => exact pair d text rfl rfl
      by_cases isNewline : c = '\n'
      · -- only a literal between backticks goes on here
        subst isNewline
        rw [crlf_newline, closing?_cons _ (by decide), if_neg (Ne.symm notReturn),
          if_neg (by simp),
          closing?_cons _ plain, if_neg notQuote, if_neg goesOn,
          Option.map_map] at closed
        obtain ⟨m, later, rfl⟩ := Option.map_eq_some_iff.1 closed
        obtain ⟨body, rest, rfl, closed', rfl⟩ := ih later
        refine ⟨'\n' :: body, rest, rfl, ?_, rfl⟩
        rw [closing?_cons _ plain, if_neg notQuote, if_neg goesOn, closed']
        rfl
      · rw [crlf_cons isNewline, closing?_cons _ plain, if_neg notQuote,
          if_neg goesOn] at closed
        obtain ⟨m, later, rfl⟩ := Option.map_eq_some_iff.1 closed
        obtain ⟨body, rest, rfl, closed', rfl⟩ := ih later
        refine ⟨c :: body, rest, rfl, ?_, by rw [crlf_cons isNewline]; rfl⟩
        rw [closing?_cons _ plain, if_neg notQuote, if_neg goesOn, closed']
        rfl

private theorem commentEnd?_of_crlf (closed : commentEnd? (crlf text) = some n) :
    ∃ body rest, text = body ++ rest ∧ commentEnd? body = some body.length ∧
      (crlf body).length = n := by
  fun_induction commentEnd? text generalizing n with
  | case1 rest =>
      rw [crlf_cons (by decide), crlf_cons (by decide)] at closed
      cases closed
      exact ⟨['*', '/'], rest, rfl, rfl, rfl⟩
  | case2 c text notEnd ih =>
      have more {body rest : Text} (split : text = body ++ rest)
          (closed' : commentEnd? body = some body.length) :
          commentEnd? (c :: body) = some (c :: body).length := by
        rw [commentEnd?_cons, closed']
        · rfl
        · rintro later star rfl
          exact notEnd (later ++ rest) star (by rw [split]; rfl)
      by_cases isNewline : c = '\n'
      · subst isNewline
        rw [crlf_newline, commentEnd?_cons (by simp), commentEnd?_cons (by simp),
          Option.map_map] at closed
        obtain ⟨m, later, rfl⟩ := Option.map_eq_some_iff.1 closed
        obtain ⟨body, rest, split, closed', rfl⟩ := ih later
        exact ⟨'\n' :: body, rest, by rw [split]; rfl, more split closed', rfl⟩
      · rw [crlf_cons isNewline, commentEnd?_cons] at closed
        · obtain ⟨m, later, rfl⟩ := Option.map_eq_some_iff.1 closed
          obtain ⟨body, rest, split, closed', rfl⟩ := ih later
          exact ⟨c :: body, rest, by rw [split]; rfl, more split closed', by
            rw [crlf_cons isNewline]; rfl⟩
        · intro later star same
          obtain ⟨rest, rfl⟩ := exists_of_crlf_eq_cons same (by decide)
          exact notEnd rest star rfl
  | case3 => simp [commentEnd?] at closed

private theorem endsBefore_of_crlf {kind : TokenKind} {c : Char} {u u' : Text}
    (ends : EndsBefore (some kind) (c :: u) ((crlf text).head?.or none))
    (same : kind = .punct → u' = u) :
    EndsBefore (some kind) (c :: u') (text.head?.or none) := by
  rw [Option.or_none] at ends ⊢
  cases text with
  | nil => cases kind <;> simp [EndsBefore]
  | cons d text =>
      by_cases isNewline : d = '\n'
      · subst isNewline
        exact endsBefore_blank _ _ (by decide)
      · rw [crlf_cons isNewline] at ends
        cases kind with
        | name => exact ends
        | string => trivial
        | punct =>
            rw [same rfl]
            exact ends

/-- A token of a text with the other line ends is one of the text. -/
private theorem exists_lexeme_of_crlf {kind : TokenKind} {c : Char} {u later : Text}
    (lexeme : Lexeme (some kind) (c :: u)) (split : crlf text = u ++ later)
    (ends : EndsBefore (some kind) (c :: u) (later.head?.or none)) :
    ∃ u' rest, text = u' ++ rest ∧ crlf rest = later ∧
      Lexeme (some kind) (c :: u') ∧
      EndsBefore (some kind) (c :: u') (rest.head?.or none) := by
  cases lexeme with
  | string quoted closed =>
      have whole := closing?_append later closed
      rw [← split] at whole
      obtain ⟨body, rest, rfl, closed', length⟩ := closing?_of_crlf quoted whole
      rw [crlf_append] at split
      obtain ⟨-, rfl⟩ := List.append_inj split length
      exact ⟨body, rest, rfl, rfl, .string quoted closed', trivial⟩
  | name named =>
      obtain ⟨rest, rfl, rfl⟩ := exists_of_crlf_eq_append split fun d mem => by
        have := named d (by simp [mem])
        constructor <;> rintro rfl <;> exact absurd this (by decide)
      exact ⟨u, rest, rfl, rfl, .name named, endsBefore_of_crlf ends fun _ => rfl⟩
  | punct notBlank notQuote notNamed =>
      obtain rfl : crlf text = later := split
      exact ⟨[], text, rfl, rfl, .punct notBlank notQuote notNamed,
        endsBefore_of_crlf ends fun _ => rfl⟩

/-- White space or a block comment of a text with the other line ends is one of
the text. A line comment would take the carriage return of its line end. -/
private theorem exists_gap_of_crlf {c : Char} {rest u later : Text}
    (lexeme : Lexeme none u) (split : c :: crlf rest = u ++ later)
    (notComment : ¬(c = '/' ∧ rest.head? = some '/')) :
    ∃ u' rest', rest = u' ++ rest' ∧ crlf rest' = later ∧ Lexeme none (c :: u') ∧
      ∀ d?, EndsBefore none (c :: u') d? := by
  cases lexeme with
  | @blank d isBlank =>
      obtain ⟨rfl, rfl⟩ := List.cons.inj split
      exact ⟨[], rest, rfl, rfl, .blank isBlank, by simp [EndsBefore]⟩
  | @lineComment body oneLine =>
      obtain ⟨rfl, next⟩ := List.cons.inj split
      obtain ⟨rest, rfl⟩ := exists_of_crlf_eq_cons next (by decide)
      exact absurd ⟨rfl, rfl⟩ notComment
  | @blockComment body closed =>
      obtain ⟨rfl, next⟩ := List.cons.inj split
      obtain ⟨rest, rfl⟩ := exists_of_crlf_eq_cons next (by decide)
      rw [crlf_cons (by decide)] at next
      have split := (List.cons.inj next).2
      have whole := commentEnd?_append later closed
      rw [← List.append_eq, ← split] at whole
      obtain ⟨body', rest, rfl, closed', length⟩ := commentEnd?_of_crlf whole
      rw [crlf_append] at split
      obtain ⟨-, rfl⟩ := List.append_inj split length
      exact ⟨'*' :: body', rest, rfl, rfl, .blockComment closed',
        by simp [EndsBefore]⟩

private theorem exists_lineComment_of_crlf (rest : Text) :
    ∃ body more, rest = body ++ more ∧ '\n' ∉ body ∧
      (more = [] ∨ ∃ more', more = '\n' :: more' ∧
        '/' :: crlf ('/' :: rest) = '/' :: '/' :: (body ++ ['\r']) ++ ['\n'] ++
          crlf more') := by
  obtain ⟨body, more, rfl, -, inLine, ends⟩ := exists_of_takeWhile (· ≠ '\n') rest
  have oneLine : '\n' ∉ body := fun mem => by simpa using inLine '\n' mem
  refine ⟨body, more, rfl, oneLine, ?_⟩
  cases more with
  | nil => exact .inl rfl
  | cons d more =>
      obtain rfl : d = '\n' := by simpa using ends d rfl
      refine .inr ⟨more, rfl, ?_⟩
      rw [crlf_cons (by decide), crlf_append, crlf_of_oneLine oneLine, crlf_newline]
      simp

end Pieces

/-! ## Tokens -/

section Tokens

variable {text listName : Text}

/-- A text has tokens if it has some with the other line ends. -/
private theorem exists_lexed_of_crlf {start : Nat} {tokens : List Token}
    (h : Lexed start (crlf text) tokens none) (start' : Nat) :
    ∃ tokens', Lexed start' text tokens' none := by
  have newline : isBlank '\n' = true := by decide
  induction len : text.length
    using Nat.strongRecOn generalizing text start tokens start' with
  | _ n ih =>
    subst len
    cases text with
    | nil => exact ⟨[], .nil⟩
    | cons c rest =>
        by_cases isNewline : c = '\n'
        · subst isNewline
          have behind := skips_blank (c := '\r') (by decide) _ _ _ _ h
          obtain ⟨tokens', later⟩ := ih rest.length (by simp)
            (skips_blank newline _ _ _ _ behind) (start' + 1) rfl
          exact ⟨tokens', .blank newline later⟩
        rw [crlf_cons isNewline] at h
        by_cases comment : c = '/' ∧ rest.head? = some '/'
        · -- the comment takes the carriage return before its line feed
          obtain ⟨rfl, next⟩ := comment
          obtain ⟨rest, rfl⟩ := List.head?_eq_some_iff.1 next
          obtain ⟨body, more, rfl, oneLine, rfl | ⟨more, rfl, shape⟩⟩ :=
            exists_lineComment_of_crlf rest
          · exact ⟨[], .gap (.lineComment oneLine) (by simp [EndsBefore]) .nil⟩
          · rw [shape] at h
            obtain ⟨tokens', later⟩ := ih more.length (by simp; omega)
              (skips_lineComment (by simpa using oneLine) _ _ _ _ h)
              (start' + ('/' :: '/' :: body).length + 1) rfl
            exact ⟨tokens', .gap (.lineComment oneLine) (by simp [EndsBefore])
              (.blank newline later)⟩
        have shorter (u' rest' : Text) :
            rest'.length < (c :: (u' ++ rest')).length := by
          simp only [List.length_cons, List.length_append]
          omega
        generalize whole : c :: crlf rest = all at h
        generalize none_eq : none = next? at h
        cases h with
        | nil => simp at whole
        | @gap _ u text' _ _ lexeme ends later =>
            subst none_eq
            obtain ⟨u', rest, rfl, rfl, lexeme', ends'⟩ :=
              exists_gap_of_crlf lexeme whole comment
            obtain ⟨tokens', later⟩ := ih rest.length (shorter u' rest) later
              (start' + (c :: u').length) rfl
            exact ⟨tokens', .gap lexeme' (ends' _) later⟩
        | @token _ kind d u text' _ _ lexeme ends later =>
            subst none_eq
            obtain ⟨rfl, split⟩ := List.cons.inj whole
            obtain ⟨u', rest, rfl, rfl, lexeme', ends'⟩ :=
              exists_lexeme_of_crlf lexeme split ends
            obtain ⟨tokens', later⟩ := ih rest.length (shorter u' rest) later
              (start' + (c :: u').length) rfl
            exact ⟨⟨kind, c, u', start', lexeme'.single⟩ :: tokens',
              .token lexeme' ends' later⟩

/-- Whether no literal of a text runs over a line end. -/
def OneLineLiterals (text : Text) : Prop :=
  ∀ tokens, tokenize text = .ok tokens → ∀ t ∈ tokens, t.kind = .string →
    '\n' ∉ t.rest

private theorem continues_of_oneLine (oneLine : '\n' ∉ text) :
    continues text = false := by
  fun_induction continues text with
  | case1 => simp at oneLine
  | case2 c rest _ ih => exact ih (by simp_all)
  | case3 c rest _ _ ih => exact ih (by simp_all)
  | case4 => rfl

private theorem tokenize_crlf {tokens : List Token} (oneLine : OneLineLiterals text)
    (tokenized : tokenize text = .ok tokens) :
    tokenize (crlf text) = .ok (tokens.map (Token.crlf text)) ∧
      bare (tokens.map (Token.crlf text)) = bare tokens := by
  have inLine := oneLine tokens tokenized
  constructor
  · have lexed : Lexed (crlf []).length (crlf text)
        (tokens.map (Token.crlf ([] ++ text))) none :=
      Lexed.crlf (tokenize_eq_ok_iff.1 tokenized)
        fun t mem string => continues_of_oneLine (inLine t mem string)
    exact tokenize_eq_ok_iff.2 lexed
  · rw [bare, List.map_map]
    refine List.map_congr_left fun t mem => ?_
    have rest : (t.crlf text).rest = t.rest := by
      rw [Token.crlf_rest]
      split
      next string => exact crlf_of_oneLine (inLine t mem string.1)
      next => rfl
    simp only [Function.comp_apply, Token.bare, rest]
    rfl

/-! ## Documents -/

private theorem exists_scan_of_bare {text' : Text} {tokens tokens' : List Token}
    {doc : Document} (tokenized : tokenize text = .ok tokens)
    (tokenized' : tokenize text' = .ok tokens')
    (same : bare tokens' = bare tokens)
    (scanned : scan text listName = .ok doc) :
    ∃ doc', scan text' listName = .ok doc' := by
  obtain ⟨content, list, -, imports, balanced⟩ := scan_says tokenized scanned
  rw [← listContent_congr listName same] at list
  obtain ⟨imports', found, -⟩ := map_eq_ok_iff.1
    ((importsOf_content (statements_tokens_congr same)).trans
      (by rw [imports, map_ok]))
  obtain ⟨doc', scanned', -⟩ :=
    exists_scan tokenized' (balanced.of_bare same) list found
  exact ⟨doc', scanned'⟩

/-- A text without literals over line ends is read exactly if it is read with
the other line ends, and then the same is read at other places. -/
private theorem scan_crlf_eq (oneLine : OneLineLiterals text) (listName : Text) :
    (scan (crlf text) listName).toOption =
      (scan text listName).toOption.map
      (Document.moved (Span.crlf text) (crlf text)) := by
  cases scanned : scan text listName with
  | ok doc =>
      obtain ⟨front, opener, chunks, closer, back, tokenized, -⟩ :=
        exists_located scanned
      have inLine := oneLine _ tokenized
      obtain ⟨doc', scanned', same, carried⟩ :=
        exists_carried_crlf tokenized scanned fun t mem string =>
          continues_of_oneLine (inLine t mem string)
      rw [scanned', carried.eq_moved same inLine]
      rfl
  | error fault =>
      cases scanned' : scan (crlf text) listName with
      | error fault' => rfl
      | ok doc' =>
          obtain ⟨_, _, _, _, _, tokenized', -⟩ := exists_located scanned'
          obtain ⟨tokens, lexed⟩ :=
            exists_lexed_of_crlf (tokenize_eq_ok_iff.1 tokenized') 0
          have tokenized := tokenize_eq_ok_iff.2 lexed
          obtain ⟨tokenized'', same⟩ := tokenize_crlf oneLine tokenized
          obtain ⟨doc, scanned''⟩ :=
            exists_scan_of_bare tokenized'' tokenized same.symm scanned'
          simp [scanned] at scanned''

theorem scan_crlf_cases (oneLine : OneLineLiterals text) (listName : Text) :
    (∃ doc, scan text listName = .ok doc ∧
      scan (crlf text) listName = .ok (doc.moved (Span.crlf text) (crlf text))) ∨
      ∃ fault fault', scan text listName = .error fault ∧
      scan (crlf text) listName = .error fault' :=
  (toOption_eq_map_iff.1 (scan_crlf_eq oneLine listName)).symm

end Tokens

end Registry

end Showcase

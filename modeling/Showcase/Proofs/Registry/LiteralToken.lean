import Showcase.Proofs.Registry.Chain
import Showcase.Proofs.Registry.Quoting
import Showcase.Registry.Bracket
import Showcase.Registry.Edit

/-!
# Literals behind a text

A literal that is written behind white space or a bracket is one token there,
whatever follows it, and the tokens before it stay (`quote_tokenize`).
-/

namespace Showcase.Registry

def isBracket (c : Char) : Bool := (closerOf? c).isSome || isCloser c

/-- A text whose last character is white space or a bracket outside comments and
strings: what stands before this character is a chain of lexemes that ends
there. -/
def Settled (text : Text) : Prop :=
  ∃ left c tokens, text = left ++ [c] ∧ (isBlank c = true ∨ isBracket c = true) ∧
    Lexed 0 left tokens (some c)

private theorem mem_of_isBracket {c : Char} (h : isBracket c = true) :
    c ∈ ['{', '[', '(', '}', ']', ')'] := by
  unfold isBracket closerOf? isCloser at h
  split at h <;> simp_all [or_assoc]

private theorem lexeme_of_isBracket {c : Char} (h : isBracket c = true) :
    Lexeme (some .punct) [c] := by
  have all : ∀ c ∈ ['{', '[', '(', '}', ']', ')'],
      isBlank c = false ∧ isQuote c = false ∧ isNameChar c = false := by decide
  obtain ⟨notBlank, notQuote, notNamed⟩ := all c (mem_of_isBracket h)
  exact .punct notBlank notQuote notNamed

theorem Settled.lexed {text : Text} {tokens : List Token}
    (settled : Settled text) (read : tokenize text = .ok tokens)
    (next? : Option Char) : Lexed 0 text tokens next? := by
  obtain ⟨left, c, earlier, rfl, last, chain⟩ := settled
  obtain ⟨final, single⟩ : ∃ final, ∀ next?,
      Lexed (0 + left.length) [c] final next? := by
    rcases last with blank | bracket
    · refine ⟨[], fun next? => .gap (u := [c]) (.blank blank) ?_ .nil⟩
      simp [EndsBefore]
    · refine ⟨[.punct c (0 + left.length)],
        fun next? => .token (lexeme_of_isBracket bracket) ?_ .nil⟩
      intro slash
      obtain rfl : c = '/' := by simpa using slash
      exact absurd bracket (by decide)
  have whole (next? : Option Char) :
      Lexed 0 (left ++ [c]) (earlier ++ final) next? :=
    chain.append (single next?)
  obtain rfl : tokens = earlier ++ final :=
    Except.ok.inj (read.symm.trans (tokensFrom_eq_ok_iff.2 (whole none)))
  exact whole next?

/-- A line feed settles any text: it ends names and line comments. -/
private theorem settled_newline {text : Text} {tokens : List Token}
    (read : tokenize text = .ok tokens) :
    Settled (text ++ ['\n']) := by
  refine ⟨text, '\n', tokens, rfl, .inl (by decide), ?_⟩
  refine (tokensFrom_eq_ok_iff.1 read).reseat (fun u _ _ _ c next => ?_)
    fun t _ _ => ?_
  · exact (Option.some.inj next).symm
  · cases t.kind with
    | name =>
        rintro c ⟨⟩
        decide
    | string => trivial
    | punct =>
        rintro - c ⟨⟩
        decide

/-- A written literal is read back as its value, stands on one line, and is one
token behind a settled text. -/
theorem quote_tokenize (value quoteText : Text) :
    literalValue (quote value quoteText) = .ok value ∧
      (∀ c ∈ quote value quoteText, c ≠ '\n' ∧ c ≠ '\r') ∧
      ∀ front tokens, tokenize front = .ok tokens → Settled front →
        ∃ literal : Token, literal.kind = .string ∧
        literal.text = quote value quoteText ∧
          literal.start = front.length ∧
          tokenize (front ++ quote value quoteText) = .ok (tokens ++ [literal]) ∧
          ∀ rest all, tokenize (front ++ quote value quoteText ++ rest) = .ok all →
            ∃ later, all = tokens ++ literal :: later := by
  obtain ⟨body, shape, lexeme⟩ := quote_lexeme value quoteText
  refine ⟨?_, fun c mem => ?_, fun front tokens read settled => ?_⟩
  · have decoded := decode_quote value quoteText
    rw [shape, List.tail_cons] at decoded
    rw [shape, literalValue, decoded]
    rfl
  · have inLine := quote_inLine value quoteText c mem
    simpa [isLineEnd, not_or] using inLine
  rw [shape]
  refine ⟨.string (literalQuote quoteText) body front.length, rfl, rfl, rfl, ?_⟩
  -- The literal ends by itself, so the chain does not depend on what follows.
  have chain (next? : Option Char) :
      Lexed 0 (front ++ literalQuote quoteText :: body)
      (tokens ++ [.string (literalQuote quoteText) body front.length]) next? := by
    have literal : Lexed (0 + front.length) (literalQuote quoteText :: body)
        [.string (literalQuote quoteText) body (0 + front.length)] next? := by
      have last :
        Lexed (0 + front.length + (literalQuote quoteText :: body).length) []
          [] next? := .nil
      simpa using Lexed.token lexeme trivial last
    rw [Nat.zero_add] at literal
    exact (settled.lexed read _).append (by simpa using literal)
  refine ⟨tokensFrom_eq_ok_iff.2 (chain none), fun rest all whole => ?_⟩
  rw [tokenize, (chain rest.head?).tokensFrom_append] at whole
  obtain ⟨later, -, rfl⟩ := map_eq_ok_iff.1 whole
  exact ⟨later, by simp⟩

/-! ## A title behind a comment -/

/-- A quote, a backslash, line ends and a separator that only a literal may hold. -/
def awkwardTitle : Text := "\uFEFF'\\\r\n\u2028😀".toList

def openedList : Text := "const versions = [ // it's open".toList

theorem quote_tokenize_awkwardTitle : ∃ tokens all later, ∃ literal : Token,
    tokenize (openedList ++ ['\n']) = .ok tokens ∧ Settled (openedList ++ ['\n']) ∧
      tokenize (openedList ++ ['\n'] ++ quote awkwardTitle ['\''] ++ " ]".toList)
        = .ok all ∧
      literal.text = quote awkwardTitle ['\''] ∧
      all = tokens ++ literal :: later := by
  have readable {text : Text} (h : (tokenize text).isOk = true) :
      ∃ tokens, tokenize text = .ok tokens := by
    cases found : tokenize text with
    | error fault => simp [found, Except.isOk, Except.toBool] at h
    | ok tokens => exact ⟨tokens, rfl⟩
  obtain ⟨before, read⟩ :=
    readable (show (tokenize openedList).isOk = true by decide +kernel)
  obtain ⟨tokens, read'⟩ := readable
    (show (tokenize (openedList ++ ['\n'])).isOk = true by decide +kernel)
  obtain ⟨all, whole⟩ :=
    readable (show (tokenize (openedList ++ ['\n'] ++ quote awkwardTitle ['\''] ++
      " ]".toList)).isOk = true by decide +kernel)
  have settled := settled_newline read
  obtain ⟨-, -, behind⟩ := quote_tokenize awkwardTitle ['\'']
  obtain ⟨literal, -, text, -, -, goesOn⟩ := behind _ tokens read' settled
  obtain ⟨later, split⟩ := goesOn " ]".toList all whole
  exact ⟨tokens, all, later, literal, read', settled, whole, text, split⟩

end Showcase.Registry

import Showcase.Registry.Token

/-!
# Brackets

`partners` matches the bracket tokens of a token list.  `skipTo` walks forward
at one depth: at an opening bracket it goes on behind the partner.
-/

namespace Showcase.Registry

def closerOf? : Char → Option Char
  | '{' => some '}'
  | '[' => some ']'
  | '(' => some ')'
  | _ => none

def isCloser (c : Char) : Bool := c == '}' || c == ']' || c == ')'

/-- The index of every opening bracket with the index of its partner. -/
abbrev Partners := List (Nat × Nat)

/-- Matches the brackets of the tokens from index `i` on.  The stack holds the
brackets still open, innermost first, each with the closer it waits for. -/
def partnersFrom (i : Nat) (stack : List (Nat × Char)) :
    List Token → Except Fault Partners
  | [] => if stack.isEmpty then .ok [] else .error .unbalanced
  | token :: tokens =>
      if token.kind ≠ .punct then partnersFrom (i + 1) stack tokens
      else
        match closerOf? token.first with
        | some closer => partnersFrom (i + 1) ((i, closer) :: stack) tokens
        | none =>
            if isCloser token.first then
              match stack with
              | [] => .error .unbalanced
              | (opener, closer) :: stack =>
                  if closer = token.first then
                    (partnersFrom (i + 1) stack tokens).map ((opener, i) :: ·)
                  else .error .unbalanced
            else partnersFrom (i + 1) stack tokens

def partners (tokens : List Token) : Except Fault Partners :=
  partnersFrom 0 [] tokens

structure Bracketed where
  tokens : Array Token
  partners : Partners

namespace Bracketed

def size (b : Bracketed) : Nat := b.tokens.size

def token? (b : Bracketed) (i : Nat) : Option Token := b.tokens[i]?

def partner? (b : Bracketed) (i : Nat) : Option Nat := b.partners.lookup i

def hasText (b : Bracketed) (i : Nat) (text : Text) : Bool :=
  match b.token? i with
  | some token => token.text == text
  | none => false

theorem lt_size_of_hasText (b : Bracketed) {i : Nat} {text : Text}
    (h : b.hasText i text = true) : i < b.size := by
  by_cases inside : i < b.size
  · exact inside
  · have absent : b.token? i = none := Array.getElem?_eq_none (Nat.not_lt.1 inside)
    simp [hasText, absent] at h

/-- The index behind a token, or behind the whole group that it opens. -/
def next (b : Bracketed) (i : Nat) : Nat :=
  match b.partner? i with
  | some j => max i j + 1
  | none => i + 1

theorem lt_next (b : Bracketed) (i : Nat) : i < b.next i := by
  unfold next
  split <;> omega

/-- The first index from `i` on, at the depth of `i`, of a punctuation
character among `stops`; `stop` if there is none. -/
def skipTo (b : Bracketed) (stops : List Char) (i stop : Nat) : Nat :=
  if i < stop then
    match b.token? i with
    | some token =>
        if token.isPunctIn stops then i else skipTo b stops (b.next i) stop
    | none => stop
  else stop
termination_by stop - i
decreasing_by
  have := b.lt_next i
  omega

theorem le_skipTo (b : Bracketed) (stops : List Char) (i stop : Nat)
    (h : i ≤ stop) :
    i ≤ b.skipTo stops i stop := by
  fun_induction skipTo b stops i stop with
  | case1 => exact Nat.le_refl _
  | case2 i lt token found notStop ih =>
      have := b.lt_next i
      by_cases inside : b.next i ≤ stop
      · have := ih inside
        omega
      · rw [skipTo]
        simp only [show ¬ b.next i < stop by omega, if_false]
        exact h
  | case3 => exact h
  | case4 => exact h

theorem le_skipTo_of_lt (b : Bracketed) {stops : List Char} {i stop : Nat}
    (h : b.skipTo stops i stop < stop) : i ≤ b.skipTo stops i stop := by
  by_cases inside : i ≤ stop
  · exact b.le_skipTo stops i stop inside
  · rw [skipTo, if_neg (by omega)] at h
    omega

def ofTokens (tokens : List Token) : Except Fault Bracketed := do
  let pairs ← Registry.partners tokens
  return ⟨tokens.toArray, pairs⟩

end Bracketed

end Showcase.Registry

import Showcase.Text.CodePoint

/-!
# Spans

A span is a half-open range of character positions.  `splice` is the only
operation that changes a registry text: it swaps one range for a new text.
-/

namespace Showcase

structure Span where
  start : Nat
  stop : Nat
  deriving DecidableEq, Repr

/-- A range that does not lie inside a text of the given length. -/
structure OutOfText where
  start : Int
  stop : Int
  length : Nat
  deriving DecidableEq, Repr

def OutOfText.message (range : OutOfText) : String :=
  s!"Span Span(start={range.start}, end={range.stop}) outside buffer of length {range.length}"

def splice {α : Type} (text : List α) (start stop : Int) (new : List α) :
    Except OutOfText (List α) :=
  if 0 ≤ start ∧ start ≤ stop ∧ stop ≤ text.length then
    .ok (text.take start.toNat ++ new ++ text.drop stop.toNat)
  else
    .error ⟨start, stop, text.length⟩

namespace Span

variable {α : Type}

def slice (span : Span) (text : List α) : List α :=
  (text.take span.stop).drop span.start

def splice (span : Span) (text new : List α) : Except OutOfText (List α) :=
  Showcase.splice text span.start span.stop new

theorem splice_eq_ok {span : Span} {text : List α} (new : List α)
    (ordered : span.start ≤ span.stop) (inside : span.stop ≤ text.length) :
    span.splice text new =
      .ok (text.take span.start ++ new ++ text.drop span.stop) := by
  simp [splice, Showcase.splice, ordered, inside]

end Span

end Showcase

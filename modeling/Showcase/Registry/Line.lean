import Showcase.Failure

/-!
# Whole lines

A region that stands alone on its lines is removed with them: indentation, a
`//` comment behind it and the line end included.  Any other region only takes
the spaces behind it.

`wholeLinesAt` also takes positions that count from the end of the text.
-/

namespace Showcase.Registry

def isPad (c : Char) : Bool := c == ' ' || c == '\t'

def isLineEnd (c : Char) : Bool := c == '\n' || c == '\r'

def lineEnd : Text → Nat
  | '\r' :: '\n' :: _ => 2
  | _ :: _ => 1
  | [] => 0

/-- Widens a span to whole lines if nothing else stands on them, and else over
the spaces behind it. -/
def wholeLines (text : Text) (span : Span) : Except Failure Span :=
  if text.length < span.start ∨ text.length < span.stop then .error .outOfRange
  else
    let before := (text.take span.start).reverse
    let start := span.start - (before.takeWhile isPad).length
    let atLineStart := match before.dropWhile isPad with
      | [] => true
      | c :: _ => c == '\n'
    let padding := (text.drop span.stop).takeWhile isPad
    let padded := span.stop + padding.length
    let comment :=
      if atLineStart && "//".toList.isPrefixOf (text.drop padded) then
        (text.drop padded).takeWhile (!isLineEnd ·)
      else []
    let stop := padded + comment.length
    let after := text.drop stop
    let atLineEnd := match after with
      | [] => true
      | c :: _ => isLineEnd c
    if atLineStart && atLineEnd then .ok ⟨start, stop + lineEnd after⟩
    else .ok ⟨span.start, stop⟩

/-! ## Positions that count from the end -/

/-- What stands between a position and the end.  A negative position counts from
the end. -/
def textFrom (text : Text) (position : Int) : Text :=
  text.drop (if position < 0 then text.length + position else position).toNat

def readFrom (text : Text) (position : Int) : Text :=
  if position < 0 then textFrom text position ++ text else textFrom text position

/-- The start of a region with the indentation before it, and whether a line
starts there.  A negative position has no indentation. -/
def lineStart? (text : Text) (start : Int) : Option (Int × Bool) :=
  if 0 ≤ start then
    if text.length < start then none
    else
      let before := (text.take start.toNat).reverse
      let atLineStart := match before.dropWhile isPad with
        | [] => true
        | c :: _ => c == '\n'
      some (start - (before.takeWhile isPad).length, atLineStart)
  else if text.length + start < 1 then none
  else some (start, (textFrom text (start - 1)).head? == some '\n')

def wholeLinesAt (text : Text) (start stop : Int) : Except Failure (Int × Int) :=
  if text.length < stop ∨ text.length + stop < 0 then .error .outOfRange
  else
    match lineStart? text start with
    | none => .error .outOfRange
    | some (indented, atLineStart) =>
        let padded := stop + ((readFrom text stop).takeWhile isPad).length
        let comment :=
          if atLineStart && "//".toList.isPrefixOf (textFrom text padded) then
            (readFrom text padded).takeWhile (!isLineEnd ·)
          else []
        let reached := padded + comment.length
        let atLineEnd := match readFrom text reached with
          | [] => true
          | c :: _ => isLineEnd c
        if atLineStart && atLineEnd then
          .ok (indented, reached + lineEnd (textFrom text reached))
        else .ok (start, reached)

theorem textFrom_natCast (text : Text) (n : Nat) :
    textFrom text n = text.drop n := by
  have natural : ¬(n : Int) < 0 := by omega
  simp only [textFrom, natural, if_false, Int.toNat_natCast]

theorem readFrom_natCast (text : Text) (n : Nat) :
    readFrom text n = text.drop n := by
  have natural : ¬(n : Int) < 0 := by omega
  simp only [readFrom, natural, if_false, textFrom_natCast]

theorem length_takeWhile_reverse_take_le (p : Char → Bool) (text : Text) (n : Nat) :
    ((text.take n).reverse.takeWhile p).length ≤ n := by
  have shorter := (List.takeWhile_sublist p (l := (text.take n).reverse)).length_le
  simp only [List.length_reverse, List.length_take] at shorter
  omega

theorem wholeLinesAt_natCast (text : Text) (span : Span) :
    wholeLinesAt text span.start span.stop
      = (wholeLines text span).map fun lines =>
        ((lines.start : Int), (lines.stop : Int)) := by
  have indentation := length_takeWhile_reverse_take_le isPad text span.start
  have natural (n : Nat) : 0 ≤ (n : Int) := Int.natCast_nonneg n
  have sum (m n : Nat) : (m : Int) + (n : Int) = ((m + n : Nat) : Int) :=
    (Int.natCast_add m n).symm
  unfold wholeLinesAt wholeLines lineStart?
  by_cases stopBehind : text.length < span.stop
  · simp [stopBehind, Except.map]
  · by_cases startBehind : text.length < span.start
    · simp [stopBehind, startBehind, Except.map]
    · have stopInside : ¬((text.length : Int) < span.stop ∨
          (text.length : Int) + span.stop < 0) := by
        omega
      have startInside : ¬(text.length : Int) < span.start := by omega
      have inside : ¬(text.length < span.start ∨ text.length < span.stop) := by
        omega
      rw [if_neg stopInside, if_neg inside, if_pos (natural span.start),
        if_neg startInside]
      simp only [Int.toNat_natCast, readFrom_natCast, textFrom_natCast, sum]
      rw [← Int.ofNat_sub indentation, apply_ite (Except.map _)]
      rfl

end Showcase.Registry

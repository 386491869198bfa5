import Showcase.Proofs.CodePoints
import Showcase.Registry.Literal

/-!
# Bodies of literals

A literal of a text holds no surrogate, so that its characters can be read one
by one (`decode_eq`).
-/

namespace Showcase

theorem CodePoint.seen_ofChar (c : Char) : (ofChar c).seen = c := by
  rw [seen, toChar?_ofChar, Option.getD_some]

@[simp] theorem map_seen_toPoints (text : Text) :
    (toPoints text).map CodePoint.seen = text := by
  rw [toPoints, List.map_map]
  exact (List.map_congr_left fun c _ => CodePoint.seen_ofChar c).trans
    (List.map_id text)

namespace Registry

/-- The code points that the characters of a literal's body stand for. -/
def bodyPoints? : Text → Option (List CodePoint)
  | [] => some []
  | first :: rest =>
      match unit? first rest with
      | none => none
      | some (point?, n) => (bodyPoints? (rest.drop n)).map (point?.toList ++ ·)
termination_by body => body.length

private theorem pointUnit?_ofChar (first : Char) (rest : Text) :
    pointUnit? (.ofChar first) (toPoints rest) = unit? first rest := by
  have noSurrogate : (toPoints rest).head?.any CodePoint.isSurrogate = false := by
    cases rest with
    | nil => rfl
    | cons c rest => exact CodePoint.isSurrogate_ofChar c
  rw [pointUnit?, CodePoint.toChar?_ofChar, map_seen_toPoints]
  simp [noSurrogate]

private theorem literalPoints?_toPoints (body : Text) :
    literalPoints? (toPoints body) = bodyPoints? body := by
  fun_induction bodyPoints? body with
  | case1 => rw [toPoints, List.map_nil, literalPoints?]
  | case2 first rest none' =>
      rw [toPoints, List.map_cons, literalPoints?, ← toPoints, pointUnit?_ofChar,
        none']
  | case3 first rest point? n unit ih =>
      have later : (toPoints rest).drop n = toPoints (rest.drop n) :=
        List.map_drop.symm
      rw [toPoints, List.map_cons, literalPoints?, ← toPoints, pointUnit?_ofChar,
        unit]
      dsimp only
      rw [later, ih]

/-- The value of a literal, character by character. -/
theorem decode_eq (quote : Char) (rest : Text) :
    decode quote rest =
      if quote = '\x60' ∧ hasInterpolation rest then .error .interpolation
      else
        match (bodyPoints? rest.dropLast).bind joinPairs? with
        | some value => .ok value
        | none => .error .malformedEscape := by
  have body : (toPoints rest).dropLast = toPoints rest.dropLast := by
    simp [toPoints, List.dropLast_eq_take]
  change (if quote = '\x60' ∧ hasInterpolation ((toPoints rest).map CodePoint.seen)
    then Except.error Fault.interpolation
    else match (literalPoints? (toPoints rest).dropLast).bind joinPairs? with
      | some value => .ok value
      | none => .error .malformedEscape) = _
  rw [map_seen_toPoints, body, literalPoints?_toPoints]

end Registry

end Showcase

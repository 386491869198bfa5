import Showcase.Proofs.Registry.Balance

/-!
# Walks over token lists

`seek` walks over a token list and keeps count of the open brackets.  A walk over
the indices of a bracketed list jumps over its groups and stops at the same
tokens (`skipTo_eq`).
-/

namespace Showcase.Registry

/-! ## Tokens at an index -/

namespace Bracketed.Represents

variable {b : Bracketed} {l ts seg r : List Token}

theorem size_eq (h : b.Represents ts) : b.size = ts.length := by
  simp [size, h.tokens_eq]

theorem token?_add (h : b.Represents (l ++ ts)) (k : Nat) :
    b.token? (l.length + k) = ts[k]? := by
  simp [token?, h.tokens_eq, List.getElem?_append_right]

theorem token?_length (h : b.Represents (l ++ ts)) :
    b.token? l.length = ts.head? := by
  have := h.token?_add 0
  rwa [Nat.add_zero, ← List.head?_eq_getElem?] at this

theorem hasText_add (h : b.Represents (l ++ ts)) (k : Nat) (text : Text) :
    b.hasText (l.length + k) text = ts[k]?.any (·.text == text) := by
  rw [hasText, h.token?_add]
  cases ts[k]? <;> rfl

theorem exists_partner {o : Token} {closer : Char} (h : b.Represents (l ++ o :: ts))
    (opening : o.closer? = some closer) :
    ∃ inner c rest, ts = inner ++ c :: rest ∧ o.Pairs c ∧ Balanced inner ∧
      b.partner? l.length = some (l.length + inner.length + 1) := by
  obtain ⟨inner, c, rest, rfl, pair, inside⟩ := h.balanced.exists_group opening
  have shape : l ++ o :: (inner ++ c :: rest) = l ++ o :: inner ++ c :: rest := by
    simp
  exact ⟨inner, c, rest, rfl, pair, inside, h.group shape pair inside⟩

end Bracketed.Represents

/-! ## Seeking -/

/-- What is left of some tokens from the first one on that is among `stops` and
stands outside brackets, if `depth` brackets are open at first. -/
def seek (stops : List Char) : Nat → List Token → List Token
  | _, [] => []
  | 0, t :: ts =>
      if t.isPunctIn stops then t :: ts
      else seek stops (if t.closer?.isSome then 1 else 0) ts
  | depth + 1, t :: ts =>
      seek stops (if t.closer?.isSome then depth + 2 else if t.closes then
        depth else depth + 1) ts

theorem seek_suffix (stops : List Char) (depth : Nat) (ts : List Token) :
    seek stops depth ts <:+ ts := by
  induction ts generalizing depth with
  | nil => simp [seek]
  | cons t ts ih =>
      cases depth with
      | zero =>
          rw [seek]
          split
          · exact List.suffix_refl _
          · exact (ih _).trans (List.suffix_cons t ts)
      | succ depth =>
          rw [seek]
          exact (ih _).trans (List.suffix_cons t ts)

theorem length_seek_le (stops : List Char) (depth : Nat) (ts : List Token) :
    (seek stops depth ts).length ≤ ts.length :=
  (seek_suffix stops depth ts).length_le

/-- Inside brackets a walk goes on to where the same number of them is open. -/
private theorem seek_append_of_awaited (stops : List Char)
    {stack stack' : List Char} {ts : List Token}
    (h : awaited stack ts = some stack') (depth : Nat) (rest : List Token) :
    seek stops (stack.length + depth + 1) (ts ++ rest) =
      seek stops (stack'.length + depth + 1) rest := by
  induction ts generalizing stack with
  | nil =>
      cases h
      rfl
  | cons t ts ih =>
      obtain ⟨next, step, behind⟩ := Option.bind_eq_some_iff.1 h
      rw [List.cons_append, seek, Token.depth_of_await step]
      exact ih behind

theorem Balanced.seek_append {inner : List Token} (h : Balanced inner)
    (stops : List Char) (depth : Nat) (rest : List Token) :
    seek stops (depth + 1) (inner ++ rest) = seek stops (depth + 1) rest := by
  have := seek_append_of_awaited stops (h.awaited_eq []) depth rest
  simpa using this

theorem seek_append_of_eq_nil {stops : List Char} {stack stack' : List Char}
    {ts : List Token} (h : awaited stack ts = some stack')
    (nothing : seek stops stack.length ts = []) (rest : List Token) :
    seek stops stack.length (ts ++ rest) = seek stops stack'.length rest := by
  induction ts generalizing stack with
  | nil =>
      cases h
      rfl
  | cons t ts ih =>
      obtain ⟨next, step, behind⟩ := Option.bind_eq_some_iff.1 h
      have go (same : ∀ us, seek stops stack.length (t :: us) =
          seek stops next.length us) :
          seek stops stack.length (t :: ts ++ rest) =
            seek stops stack'.length rest := by
        rw [same] at nothing
        rw [List.cons_append, same]
        exact ih behind nothing
      have notFound : stack = [] → t.isPunctIn stops = false := by
        rintro rfl
        cases found : t.isPunctIn stops with
        | false => rfl
        | true => simp [seek, found] at nothing
      apply go
      intro us
      rcases Token.await_cases step with ⟨closer, opening, rfl⟩ |
        ⟨opening, closing, rfl⟩ | ⟨opening, closing, rfl⟩
      · cases stack with
        | nil => simp [seek, opening, notFound]
        | cons => simp [seek, opening]
      · cases next with
        | nil => simp [seek, opening, notFound]
        | cons => simp [seek, opening, closing]
      · simp [seek, opening, closing]

theorem seek_group {o c : Token} {inner : List Token} (pair : o.Pairs c)
    (inside : Balanced inner) (stops : List Char) (rest : List Token) :
    seek stops 1 (inner ++ c :: rest) = seek stops 0 rest := by
  rw [inside.seek_append, seek]
  simp [pair.closer?_eq_none, pair.closes]

private theorem Balanced.seek_eq_nil {inner ts ts' : List Token}
    (h : Balanced inner) (split : inner = ts ++ ts') (stops : List Char) :
    seek stops 1 ts = [] := by
  have all := h.awaited_eq []
  rw [split, awaited_append] at all
  obtain ⟨stack, first, -⟩ := Option.bind_eq_some_iff.1 all
  have := seek_append_of_awaited stops first 0 []
  simpa [seek] using this

private theorem skipTo_of_le {b : Bracketed} {stops : List Char} {i stop : Nat}
    (h : stop ≤ i) :
    b.skipTo stops i stop = stop := by
  rw [Bracketed.skipTo, if_neg (by omega)]

/-- The index walk over a part of a bracketed list stops where the list walk
does. -/
theorem skipTo_eq {b : Bracketed} {l seg r : List Token}
    (h : b.Represents (l ++ seg ++ r)) (stops : List Char) :
    b.skipTo stops l.length (l.length + seg.length) =
      l.length + seg.length - (seek stops 0 seg).length := by
  induction len : seg.length using Nat.strongRecOn generalizing l seg with
  | _ n ih =>
    subst len
    cases seg with
    | nil => simp [skipTo_of_le, seek]
    | cons t seg =>
        have here : b.token? l.length = some t := by
          rw [List.append_assoc] at h
          simp [h.token?_length]
        rw [Bracketed.skipTo, if_pos (by simp), here, seek]
        by_cases found : t.isPunctIn stops = true
        · simp [found]
        · simp only [found, Bool.false_eq_true, if_false]
          cases opening : t.closer? with
          | none =>
              have single := h.single (List.append_assoc l (t :: seg) r) opening
              have later := ih seg.length (by simp) (l := l ++ [t])
                (by simpa using h) rfl
              simp only [Bracketed.next, single]
              simp only [List.length_append, List.length_cons, List.length_nil]
                at later ⊢
              rw [show l.length + (seg.length + 1) = l.length + (0 + 1) +
                seg.length by omega]
              simpa using later
          | some closer =>
              have all : b.Represents (l ++ t :: (seg ++ r)) := by simpa using h
              obtain ⟨inner, c, rest, shape, pair, inside, partner⟩ :=
                all.exists_partner opening
              have jump : b.next l.length = l.length + inner.length + 2 := by
                simp only [Bracketed.next, partner]
                omega
              simp only [jump, Option.isSome_some, if_true]
              rcases List.append_eq_append_iff.1 shape with ⟨ahead, rfl, -⟩ |
                ⟨ahead, rfl, split⟩
              · rw [skipTo_of_le (by simp; omega), inside.seek_eq_nil rfl]
                simp
              · cases ahead with
                | nil =>
                    rw [List.append_nil, skipTo_of_le (by simp; omega),
                      inside.seek_eq_nil (List.append_nil inner).symm]
                    simp
                | cons d seg =>
                    obtain ⟨rfl, rfl⟩ := List.cons.inj split
                    have later := ih seg.length (by simp; omega)
                      (l := l ++ t :: inner ++ [c]) (by simpa using h) rfl
                    rw [seek_group pair inside]
                    simp only [List.length_append, List.length_cons,
                      List.length_nil] at later ⊢
                    rw [show l.length + (inner.length + (seg.length + 1) + 1) =
                      l.length + (inner.length + 1) + (0 + 1) + seg.length by
                      omega, ← later]
                    congr 1

end Showcase.Registry

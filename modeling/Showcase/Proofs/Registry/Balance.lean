import Mathlib.Data.List.Basic
import Showcase.Proofs.Outcome
import Showcase.Registry.Bracket

/-!
# Balanced brackets

A token list is balanced if it is made of tokens that are no brackets and of
groups: an opening bracket, a balanced list and the closing bracket it waits
for.  The stack of closing brackets still awaited decides it (`balanced_iff`),
and the partners of a balanced list are the two ends of its groups
(`Represents`).
-/

namespace Showcase.Registry

namespace Token

/-- The closing bracket that an opening one waits for. -/
def closer? (t : Token) : Option Char :=
  if t.kind = .punct then closerOf? t.first else none

def closes (t : Token) : Bool := t.kind == .punct && isCloser t.first

def Pairs (o c : Token) : Prop := o.closer? = some c.first ∧ c.kind = .punct

theorem closer?_eq_some_iff {t : Token} {c : Char} :
    t.closer? = some c ↔ t.kind = .punct ∧ closerOf? t.first = some c := by
  unfold closer?
  split <;> simp [*]

private theorem closes_of_closer? {t : Token} {c : Char}
    (h : t.closer? = some c) : t.closes = false := by
  have opens := (closer?_eq_some_iff.1 h).2
  unfold closerOf? at opens
  split at opens <;> simp_all [closes, isCloser]

theorem Pairs.closes {o c : Token} (h : o.Pairs c) : c.closes = true := by
  obtain ⟨opens, punct⟩ := h
  replace opens := (closer?_eq_some_iff.1 opens).2
  unfold closerOf? at opens
  split at opens <;> simp_all [Token.closes, isCloser]
  all_goals simp [← opens]

theorem plain_of_text {t : Token} {c : Char} (h : t.text = [c])
    (opening : closerOf? c = none) (closing : isCloser c = false) :
    t.closer? = none ∧ t.closes = false := by
  obtain ⟨first, -⟩ := List.cons.inj h
  simp [closer?, closes, first, opening, closing]

theorem isPunctIn_of_closer? {t : Token} {c : Char} {stops : List Char}
    (h : t.closer? = some c)
    (harmless : ∀ stop ∈ stops, closerOf? stop = none) :
    t.isPunctIn stops = false := by
  obtain ⟨-, opens⟩ := closer?_eq_some_iff.1 h
  rw [isPunctIn, Bool.and_eq_false_iff]
  refine .inr ?_
  by_contra stop
  rw [harmless t.first (by simpa using stop)] at opens
  contradiction

theorem Pairs.closer?_eq_none {o c : Token} (h : o.Pairs c) : c.closer? = none := by
  cases opens : c.closer? with
  | none => rfl
  | some d =>
      have := closes_of_closer? opens
      rw [h.closes] at this
      contradiction

end Token

inductive Balanced : List Token → Prop where
  | nil : Balanced []
  | plain {t : Token} {ts : List Token} (notOpening : t.closer? = none)
      (notClosing : t.closes = false) (rest : Balanced ts) : Balanced (t :: ts)
  | group {o c : Token} {inner rest : List Token} (pair : o.Pairs c) (inside :
      Balanced inner)
      (behind : Balanced rest) : Balanced (o :: inner ++ c :: rest)

/-! ## The stack of awaited brackets -/

/-- The closing brackets awaited behind a token, innermost first. -/
def Token.await (t : Token) (stack : List Char) : Option (List Char) :=
  match t.closer? with
  | some closer => some (closer :: stack)
  | none =>
      if t.closes then
        match stack with
        | [] => none
        | closer :: stack => if closer = t.first then some stack else none
      else some stack

def awaited (stack : List Char) : List Token → Option (List Char)
  | [] => some stack
  | t :: ts => (t.await stack).bind (awaited · ts)

namespace Token

variable {t o c : Token} {stack stack' : List Char}

theorem await_of_closer? {closer : Char} (h : t.closer? = some closer) :
    t.await stack = some (closer :: stack) := by
  simp [await, h]

private theorem await_of_plain (notOpening : t.closer? = none)
    (notClosing : t.closes = false) :
    t.await stack = some stack := by
  simp [await, notOpening, notClosing]

private theorem await_of_closes (notOpening : t.closer? = none)
    (closing : t.closes = true) :
    t.await (t.first :: stack) = some stack := by
  simp [await, notOpening, closing]

theorem Pairs.await (h : o.Pairs c) : c.await (c.first :: stack) = some stack :=
  await_of_closes h.closer?_eq_none h.closes

theorem await_cases (h : t.await stack = some stack') :
    (∃ closer, t.closer? = some closer ∧ stack' = closer :: stack) ∨
      (t.closer? = none ∧ t.closes = false ∧ stack' = stack) ∨
      (t.closer? = none ∧ t.closes = true ∧ stack = t.first :: stack') := by
  cases opening : t.closer? with
  | some closer =>
      rw [await_of_closer? opening] at h
      exact .inl ⟨closer, rfl, (Option.some.inj h).symm⟩
  | none =>
      cases closing : t.closes with
      | false =>
          rw [await_of_plain opening closing] at h
          exact .inr (.inl ⟨rfl, rfl, (Option.some.inj h).symm⟩)
      | true =>
          cases stack with
          | nil => simp [await, opening, closing] at h
          | cons closer stack =>
              simp only [await, opening, closing, if_true] at h
              split at h
              next same =>
                obtain rfl := Option.some.inj h
                exact .inr (.inr ⟨rfl, rfl, same ▸ rfl⟩)
              next => simp at h

theorem depth_of_await (h : t.await stack = some stack') (depth : Nat) :
    (if t.closer?.isSome then stack.length + depth + 2
      else if t.closes then stack.length + depth else stack.length + depth + 1) =
        stack'.length + depth + 1 := by
  rcases await_cases h with ⟨closer, opening, rfl⟩ | ⟨opening, closing, rfl⟩ |
    ⟨opening, closing, rfl⟩
  · simp [opening]
    omega
  · simp [opening, closing]
  · simp [opening, closing]
    omega

end Token

theorem awaited_append (stack : List Char) (ts ts' : List Token) :
    awaited stack (ts ++ ts') = (awaited stack ts).bind (awaited · ts') := by
  induction ts generalizing stack with
  | nil => rfl
  | cons t ts ih =>
      simp only [List.cons_append, awaited, Option.bind_assoc]
      congr 1
      funext stack
      exact ih stack

theorem Balanced.awaited_eq {ts : List Token} (h : Balanced ts)
    (stack : List Char) :
    awaited stack ts = some stack := by
  induction h generalizing stack with
  | nil => rfl
  | plain notOpening notClosing _ ih =>
      rw [awaited, Token.await_of_plain notOpening notClosing]
      exact ih stack
  | @group o c inner rest pair _ _ ihInner ihRest =>
      rw [List.cons_append, awaited, Token.await_of_closer? pair.1,
        Option.bind_some,
        awaited_append, ihInner, Option.bind_some, awaited, pair.await]
      exact ihRest stack

private theorem exists_of_awaited {above stack stack' : List Char}
    {closer : Char} {ts : List Token}
    (h : awaited (above ++ closer :: stack) ts = some stack')
    (shorter : stack'.length ≤ stack.length) :
    ∃ inner c rest, ts = inner ++ c :: rest ∧ awaited above inner = some [] ∧
      c.closes = true ∧ c.first = closer ∧ awaited stack rest = some stack' := by
  induction ts generalizing above with
  | nil =>
      cases h
      simp at shorter
      omega
  | cons t ts ih =>
      obtain ⟨next, step, behind⟩ := Option.bind_eq_some_iff.1 h
      have go (above' : List Char) (same : next = above' ++ closer :: stack)
          (first : t.await above = some above') :
          ∃ inner c rest, t :: ts = inner ++ c :: rest ∧
            awaited above inner = some [] ∧
            c.closes = true ∧ c.first = closer ∧
              awaited stack rest = some stack' := by
        subst same
        obtain ⟨inner, c, rest, rfl, inside, found⟩ := ih behind
        exact ⟨t :: inner, c, rest, rfl, by rw [awaited, first]; exact inside,
          found⟩
      rcases Token.await_cases step with ⟨closer', opening, same⟩ |
        ⟨opening, closing, same⟩ | ⟨opening, closing, same⟩
      · exact go (closer' :: above) same (Token.await_of_closer? opening)
      · exact go above same (Token.await_of_plain opening closing)
      · cases above with
        | nil =>
            obtain ⟨rfl, rfl⟩ := List.cons.inj same
            exact ⟨[], t, ts, rfl, rfl, closing, rfl, behind⟩
        | cons first above =>
            obtain ⟨rfl, below⟩ := List.cons.inj same
            exact go above below.symm (Token.await_of_closes opening closing)

theorem Token.pairs_of_closes {o c : Token} (opening : o.closer? = some c.first)
    (closing : c.closes = true) : o.Pairs c := by
  simp only [closes, Bool.and_eq_true, beq_iff_eq] at closing
  exact ⟨opening, closing.1⟩

theorem balanced_iff {ts : List Token} : Balanced ts ↔ awaited [] ts = some [] := by
  constructor
  · intro h
    exact h.awaited_eq []
  · intro h
    induction len : ts.length using Nat.strongRecOn generalizing ts with
    | _ n ih =>
      subst len
      cases ts with
      | nil => exact .nil
      | cons t ts =>
          obtain ⟨next, step, behind⟩ := Option.bind_eq_some_iff.1 h
          rcases Token.await_cases step with ⟨closer, opening, rfl⟩ |
            ⟨opening, closing, rfl⟩ | ⟨-, -, empty⟩
          · obtain ⟨inner, c, rest, rfl, inside, closing, rfl, last⟩ :=
              exists_of_awaited
              (by simpa using behind : awaited ([] ++ closer :: []) ts = _)
                (Nat.le_refl _)
            refine .group (Token.pairs_of_closes opening closing)
              (ih _ ?_ inside rfl) (ih _ ?_ last rfl)
            · simp only [List.length_cons, List.length_append]
              omega
            · simp only [List.length_cons, List.length_append]
              omega
          · exact .plain opening closing (ih _ (by simp) behind rfl)
          · simp at empty

namespace Balanced

variable {before ts ts' later : List Token}

theorem append (h : Balanced ts) (h' : Balanced ts') : Balanced (ts ++ ts') := by
  rw [balanced_iff, awaited_append, h.awaited_eq, Option.bind_some, h'.awaited_eq]

theorem replace (h : Balanced (before ++ ts ++ later)) (old : Balanced ts)
    (new : Balanced ts') :
    Balanced (before ++ ts' ++ later) := by
  rw [balanced_iff, awaited_append, awaited_append] at h ⊢
  obtain ⟨stack, all, rest⟩ := Option.bind_eq_some_iff.1 h
  obtain ⟨stack', first, middle⟩ := Option.bind_eq_some_iff.1 all
  rw [old.awaited_eq] at middle
  cases middle
  rw [first, Option.bind_some, new.awaited_eq, Option.bind_some, rest]

theorem of_append (h : Balanced (ts ++ ts')) (first : Balanced ts) :
    Balanced ts' := by
  rwa [balanced_iff, awaited_append, first.awaited_eq, Option.bind_some,
    ← balanced_iff] at h

theorem exists_group {o : Token} {closer : Char}
    (h : Balanced (before ++ o :: later)) (opening : o.closer? = some closer) :
    ∃ inner c rest, later = inner ++ c :: rest ∧ o.Pairs c ∧ Balanced inner := by
  rw [balanced_iff, awaited_append] at h
  obtain ⟨stack, _, behind⟩ := Option.bind_eq_some_iff.1 h
  rw [awaited, Token.await_of_closer? opening, Option.bind_some,
    ← List.nil_append (closer :: stack)] at behind
  obtain ⟨inner, c, rest, rfl, inside, closing, rfl, _⟩ :=
    exists_of_awaited behind (by simp)
  exact ⟨inner, c, rest, rfl, Token.pairs_of_closes opening closing,
    balanced_iff.2 inside⟩

end Balanced

/-! ## Partners -/

theorem partnersFrom_opening {i : Nat} {stack : List (Nat × Char)} {t : Token}
    {ts : List Token} {closer : Char} (h : t.closer? = some closer) :
    partnersFrom i stack (t :: ts) =
      partnersFrom (i + 1) ((i, closer) :: stack) ts := by
  obtain ⟨punct, opens⟩ := Token.closer?_eq_some_iff.1 h
  simp [partnersFrom, punct, opens]

theorem partnersFrom_plain {i : Nat} {stack : List (Nat × Char)} {t : Token}
    {ts : List Token} (notOpening : t.closer? = none)
    (notClosing : t.closes = false) :
    partnersFrom i stack (t :: ts) = partnersFrom (i + 1) stack ts := by
  rw [partnersFrom.eq_def]
  by_cases punct : t.kind = .punct
  · simp only [Token.closer?, punct, if_true] at notOpening
    simp only [Token.closes, punct, beq_self_eq_true, Bool.true_and] at notClosing
    simp [punct, notOpening, notClosing]
  · simp [punct]

theorem partnersFrom_closing {i opener : Nat} {closer : Char}
    {stack : List (Nat × Char)} {t : Token} {ts : List Token}
    (notOpening : t.closer? = none) (closing : t.closes = true) :
    partnersFrom i ((opener, closer) :: stack) (t :: ts) =
      if closer = t.first then
        (partnersFrom (i + 1) stack ts).map ((opener, i) :: ·)
      else .error .unbalanced := by
  simp only [Token.closes, Bool.and_eq_true, beq_iff_eq] at closing
  obtain ⟨punct, closing⟩ := closing
  simp only [Token.closer?, punct, if_true] at notOpening
  rw [partnersFrom]
  simp [punct, notOpening, closing]

theorem partnersFrom_closing_nil {i : Nat} {t : Token} {ts : List Token}
    (notOpening : t.closer? = none) (closing : t.closes = true) :
    partnersFrom i [] (t :: ts) = .error .unbalanced := by
  simp only [Token.closes, Bool.and_eq_true, beq_iff_eq] at closing
  obtain ⟨punct, closing⟩ := closing
  simp only [Token.closer?, punct, if_true] at notOpening
  rw [partnersFrom]
  simp [punct, notOpening, closing]

private theorem partnersFrom_cases {i : Nat} {stack : List (Nat × Char)}
    {t : Token} {ts : List Token} {ps : Partners}
    (h : partnersFrom i stack (t :: ts) = .ok ps) :
    (∃ closer, t.closer? = some closer ∧
      partnersFrom (i + 1) ((i, closer) :: stack) ts = .ok ps) ∨
      (t.closer? = none ∧ t.closes = false ∧
        partnersFrom (i + 1) stack ts = .ok ps) ∨
      ∃ opener stack' ps', t.closer? = none ∧ t.closes = true ∧
        stack = (opener, t.first) :: stack' ∧
        partnersFrom (i + 1) stack' ts = .ok ps' ∧
        ps = (opener, i) :: ps' := by
  cases opening : t.closer? with
  | some closer => exact .inl ⟨closer, rfl, partnersFrom_opening opening ▸ h⟩
  | none =>
      cases closing : t.closes with
      | false =>
          exact .inr (.inl ⟨rfl, rfl, partnersFrom_plain opening closing ▸ h⟩)
      | true =>
          cases stack with
          | nil => simp [partnersFrom_closing_nil opening closing] at h
          | cons entry stack =>
              obtain ⟨opener, closer⟩ := entry
              rw [partnersFrom_closing opening closing] at h
              split at h
              next same =>
                obtain ⟨found, rest, rfl⟩ := map_eq_ok_iff.1 h
                exact .inr
                  (.inr ⟨opener, stack, found, rfl, rfl, same ▸ rfl, rest, rfl⟩)
              next => simp at h

/-- The partners found behind some tokens do not depend on the brackets in them. -/
private theorem exists_of_partnersFrom_append {i : Nat}
    {stack : List (Nat × Char)} {ts rest : List Token} {ps : Partners}
    (h : partnersFrom i stack (ts ++ rest) = .ok ps)
    (below : ∀ entry ∈ stack, entry.1 < i) :
    ∃ stack' qs ps', partnersFrom (i + ts.length) stack' rest = .ok ps' ∧
      ps = qs ++ ps' ∧
      (∀ pair ∈ qs, pair.1 < i + ts.length) ∧ ∀ entry ∈ stack',
        entry.1 < i + ts.length := by
  induction ts generalizing i stack ps with
  | nil => exact ⟨stack, [], ps, h, rfl, by simp, below⟩
  | cons t ts ih =>
      have shift : i + (t :: ts).length = i + 1 + ts.length := by
        simp only [List.length_cons]
        omega
      rw [shift]
      rw [List.cons_append] at h
      have older : ∀ entry ∈ stack, entry.1 < i + 1 :=
        fun entry mem => Nat.lt_succ_of_lt (below entry mem)
      rcases partnersFrom_cases h with ⟨closer, -, behind⟩ | ⟨-, -, behind⟩ |
        ⟨opener, stack, ps', -, -, rfl, behind, rfl⟩
      · refine ih behind fun entry mem => ?_
        rcases List.mem_cons.1 mem with rfl | mem
        · exact Nat.lt_succ_self i
        · exact older entry mem
      · exact ih behind older
      · obtain ⟨stack', qs, ps', last, rfl, small, below'⟩ :=
          ih behind fun entry mem => older entry (List.mem_cons_of_mem _ mem)
        refine ⟨stack', (opener, i) :: qs, ps', last, rfl, fun pair mem => ?_,
          below'⟩
        rcases List.mem_cons.1 mem with rfl | mem
        · have := below (opener, t.first) List.mem_cons_self
          simp only at this ⊢
          omega
        · exact small pair mem

private theorem Balanced.exists_partners {ts : List Token} (h : Balanced ts)
    (i : Nat) (stack : List (Nat × Char)) (rest : List Token) :
    ∃ qs : Partners, (∀ pair ∈ qs, i ≤ pair.1) ∧
      partnersFrom i stack (ts ++ rest) =
        (partnersFrom (i + ts.length) stack rest).map (qs ++ ·) := by
  induction h generalizing i stack rest with
  | nil =>
      refine ⟨[], by simp, ?_⟩
      rw [List.nil_append, List.length_nil, Nat.add_zero]
      cases partnersFrom i stack rest <;> rfl
  | @plain t ts notOpening notClosing _ ih =>
      obtain ⟨qs, small, found⟩ := ih (i + 1) stack rest
      refine ⟨qs, fun pair mem => Nat.le_of_succ_le (small pair mem), ?_⟩
      rw [List.cons_append, partnersFrom_plain notOpening notClosing, found,
        List.length_cons, Nat.add_right_comm, Nat.add_assoc]
  | @group o c inner last pair _ _ ihInner ihLast =>
      obtain ⟨inside, small, foundInner⟩ :=
        ihInner (i + 1) ((i, c.first) :: stack) (c :: (last ++ rest))
      obtain ⟨behind, small', foundLast⟩ :=
        ihLast (i + 1 + inner.length + 1) stack rest
      refine ⟨inside ++ (i, i + 1 + inner.length) :: behind, ?_, ?_⟩
      · intro pair mem
        rcases List.mem_append.1 mem with mem | mem
        · exact Nat.le_of_succ_le (small pair mem)
        · rcases List.mem_cons.1 mem with rfl | mem
          · exact Nat.le_refl i
          · have := small' pair mem
            omega
      · have shift : i + (o :: inner ++ c :: last).length =
            i + 1 + inner.length + 1 + last.length := by
          simp only [List.length_append, List.length_cons]
          omega
        have shape : o :: inner ++ c :: last ++ rest =
            o :: (inner ++ (c :: (last ++ rest))) := by
          simp
        rw [shift, shape, partnersFrom_opening pair.1, foundInner,
          partnersFrom_closing pair.closer?_eq_none pair.closes,
          if_pos rfl, foundLast]
        cases partnersFrom (i + 1 + inner.length + 1 + last.length) stack rest <;>
          simp

theorem opening_of_mem_partners {i : Nat} {stack : List (Nat × Char)}
    {ts : List Token} {ps : Partners} (h : partnersFrom i stack ts = .ok ps)
    {pair : Nat × Nat} (mem : pair ∈ ps) :
    (∃ entry ∈ stack, entry.1 = pair.1) ∨
      ∃ n t, pair.1 = i + n ∧ ts[n]? = some t ∧ t.closer? ≠ none := by
  induction ts generalizing i stack ps with
  | nil =>
      rw [partnersFrom] at h
      split at h
      · cases h
        simp at mem
      · simp at h
  | cons t ts ih =>
      have deeper {stack' : List (Nat × Char)} {ps' : Partners}
          (rest : partnersFrom (i + 1) stack' ts = .ok ps') (mem' : pair ∈ ps')
          (same : ∀ entry ∈ stack', entry.1 = pair.1 → entry ∈ stack ∨
            i = pair.1 ∧ t.closer? ≠ none) :
          (∃ entry ∈ stack, entry.1 = pair.1) ∨
            ∃ n t', pair.1 = i + n ∧ (t :: ts)[n]? = some t' ∧
              t'.closer? ≠ none := by
        rcases ih rest mem' with ⟨entry, inStack, key⟩ | ⟨n, t', key, at', opens⟩
        · rcases same entry inStack key with old | ⟨here, opens⟩
          · exact .inl ⟨entry, old, key⟩
          · exact .inr ⟨0, t, here.symm, rfl, opens⟩
        · exact .inr ⟨n + 1, t', by omega, by simpa using at', opens⟩
      rcases partnersFrom_cases h with ⟨closer, opening, behind⟩ | ⟨-, -, behind⟩ |
        ⟨opener, stack, ps', -, -, rfl, behind, rfl⟩
      · refine deeper behind mem fun entry inStack key => ?_
        rcases List.mem_cons.1 inStack with rfl | old
        · exact .inr ⟨key, by simp [opening]⟩
        · exact .inl old
      · exact deeper behind mem fun entry old _ => .inl old
      · rcases List.mem_cons.1 mem with rfl | mem
        · exact .inl ⟨(opener, t.first), List.mem_cons_self, rfl⟩
        · exact deeper behind mem fun entry old _ =>
            .inl (List.mem_cons_of_mem _ old)

theorem awaited_of_partnersFrom {i : Nat} {stack : List (Nat × Char)}
    {ts : List Token} {ps : Partners} (h : partnersFrom i stack ts = .ok ps) :
    awaited (stack.map Prod.snd) ts = some [] := by
  induction ts generalizing i stack ps with
  | nil =>
      rw [partnersFrom] at h
      split at h
      next empty => simp_all [awaited]
      next => simp at h
  | cons t ts ih =>
      rcases partnersFrom_cases h with ⟨closer, opening, behind⟩ |
        ⟨opening, closing, behind⟩ |
        ⟨opener, stack, ps', opening, closing, rfl, behind, rfl⟩
      · rw [awaited, Token.await_of_closer? opening]
        exact ih behind
      · rw [awaited, Token.await_of_plain opening closing]
        exact ih behind
      · rw [List.map_cons, awaited, Token.await_of_closes opening closing]
        exact ih behind

/-! ## Bracketed token lists -/

/-- A bracketed list of these tokens: its partners are the two ends of their
groups. -/
structure Bracketed.Represents (b : Bracketed) (tokens : List Token) : Prop where
  tokens_eq : b.tokens = tokens.toArray
  balanced : Balanced tokens
  group {before : List Token} {o : Token} {inner : List Token} {c : Token}
  {later : List Token} :
    tokens = before ++ o :: inner ++ c :: later → o.Pairs c → Balanced inner →
      b.partner? before.length = some (before.length + inner.length + 1)
  single {before : List Token} {t : Token} {later : List Token} :
    tokens = before ++ t :: later → t.closer? = none →
      b.partner? before.length = none

theorem Bracketed.represents_of_ofTokens {tokens : List Token} {b : Bracketed}
    (h : Bracketed.ofTokens tokens = .ok b) : b.Represents tokens := by
  obtain ⟨ps, found, made⟩ := bind_eq_ok_iff.1 h
  cases made
  refine ⟨rfl, balanced_iff.2 (awaited_of_partnersFrom found), ?_, ?_⟩
  · intro before o inner c later shape pair inside
    rw [Registry.partners, shape, List.append_assoc] at found
    obtain ⟨stack, qs, ps, behind, rfl, small, -⟩ :=
      exists_of_partnersFrom_append found (by simp)
    obtain ⟨qs', large, split⟩ :=
      inside.exists_partners (0 + before.length + 1)
      ((0 + before.length, c.first) :: stack)
        (c :: later)
    rw [List.cons_append, partnersFrom_opening pair.1, split,
      partnersFrom_closing pair.closer?_eq_none pair.closes, if_pos rfl] at behind
    obtain ⟨ps', rest, rfl⟩ := map_eq_ok_iff.1 behind
    obtain ⟨ps', -, rfl⟩ := map_eq_ok_iff.1 rest
    have first : qs.lookup before.length = none := by
      rw [List.lookup_eq_none_iff]
      intro entry mem
      have := small entry mem
      simp
      omega
    have second : qs'.lookup before.length = none := by
      rw [List.lookup_eq_none_iff]
      intro entry mem
      have := large entry mem
      simp
      omega
    simp only [partner?, List.lookup_append, first, second,
      Option.none_or, Nat.zero_add, List.lookup_cons_self]
    congr 1
    omega
  · intro before t later shape single
    rw [partner?, List.lookup_eq_none_iff]
    intro entry mem
    rcases opening_of_mem_partners found mem with ⟨_, impossible, _⟩ |
      ⟨n, t', key, at', opens⟩
    · simp at impossible
    · simp only [bne_iff_ne, ne_eq]
      intro same
      obtain rfl : n = before.length := by omega
      rw [shape] at at'
      obtain rfl : t = t' := by simpa using at'
      exact opens single

theorem Balanced.exists_ofTokens {tokens : List Token} (h : Balanced tokens) :
    ∃ b, Bracketed.ofTokens tokens = .ok b := by
  obtain ⟨qs, _, found⟩ := h.exists_partners 0 [] []
  refine ⟨⟨tokens.toArray, qs⟩, ?_⟩
  rw [List.append_nil] at found
  simp [Bracketed.ofTokens, partners, found, partnersFrom, pure, Except.pure]

end Showcase.Registry

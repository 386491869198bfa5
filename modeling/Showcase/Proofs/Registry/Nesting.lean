import Showcase.Proofs.Registry.Walk

/-!
# Nested brackets

A token list has partners exactly if its brackets are a well nested word over
three kinds, and the partners are the pairs of one kind with a well nested part
between them.  Two such pairs are nested or disjoint, so a walk that jumps over
them stays inside the group it starts in and stops at the first place that no
group opened on the way holds (`partners_nested`).
-/

namespace Showcase.Registry

/-! ## Well nested words -/

inductive BracketKind where
  | curly
  | square
  | round
  deriving DecidableEq, Repr

def BracketKind.closer : BracketKind → Char
  | .curly => '}'
  | .square => ']'
  | .round => ')'

inductive Bracket where
  | opening (kind : BracketKind)
  | closing (kind : BracketKind)
  deriving DecidableEq, Repr

/-- The bracket that a token is.  Only punctuation is one. -/
def Token.bracket? (t : Token) : Option Bracket :=
  if t.kind = .punct then
    match t.first with
    | '{' => some (.opening .curly)
    | '}' => some (.closing .curly)
    | '[' => some (.opening .square)
    | ']' => some (.closing .square)
    | '(' => some (.opening .round)
    | ')' => some (.closing .round)
    | _ => none
  else none

def brackets (tokens : List Token) : List Bracket := tokens.filterMap Token.bracket?

def bracketAt? (tokens : List Token) (i : Nat) : Option Bracket :=
  tokens[i]?.bind Token.bracket?

inductive WellNested : List Bracket → Prop where
  | nil : WellNested []
  | group {kind : BracketKind} {inner rest : List Bracket} (inside :
      WellNested inner)
      (behind : WellNested rest) :
      WellNested (.opening kind :: inner ++ .closing kind :: rest)

/-! ## Tokens and words -/

private theorem BracketKind.closer_injective {kind kind' : BracketKind}
    (h : kind.closer = kind'.closer) :
    kind = kind' := by
  cases kind <;> cases kind' <;> simp_all [closer]

namespace Token

variable {t o c : Token} {kind : BracketKind}

private theorem bracket?_cases (t : Token) :
    (t.bracket? = none ∧ t.closer? = none ∧ t.closes = false) ∨
      (∃ kind, t.bracket? = some (.opening kind) ∧ t.closer? = some kind.closer) ∨
      ∃ kind, t.bracket? = some (.closing kind) ∧ t.closer? = none ∧
      t.closes = true ∧
        t.first = kind.closer := by
  unfold bracket? closer? closes
  by_cases punct : t.kind = .punct
  · simp only [punct, if_true]
    split <;> simp_all [closerOf?, isCloser, BracketKind.closer]
  · simp [punct]

private theorem bracket?_eq_none_iff :
    t.bracket? = none ↔ t.closer? = none ∧ t.closes = false := by
  rcases t.bracket?_cases with ⟨none, plain⟩ | ⟨kind, opening, closer⟩ |
    ⟨kind, closing, -, closes, -⟩
  · simp [none, plain]
  · simp [opening, closer]
  · simp [closing, closes]

private theorem closer?_of_opening (h : t.bracket? = some (.opening kind)) :
    t.closer? = some kind.closer := by
  rcases t.bracket?_cases with ⟨none, -⟩ | ⟨kind', opening, closer⟩ |
    ⟨kind', closing, -⟩
  · simp [none] at h
  · obtain rfl : kind' = kind := by simpa [opening] using h
    exact closer
  · simp [closing] at h

private theorem closes_of_closing (h : t.bracket? = some (.closing kind)) :
    t.closes = true ∧ t.first = kind.closer := by
  rcases t.bracket?_cases with ⟨none, -⟩ | ⟨kind', opening, -⟩ |
    ⟨kind', closing, -, closes⟩
  · simp [none] at h
  · simp [opening] at h
  · obtain rfl : kind' = kind := by simpa [closing] using h
    exact closes

private theorem pairs_iff :
    o.Pairs c ↔ ∃ kind, o.bracket? = some (.opening kind) ∧
      c.bracket? = some (.closing kind) := by
  constructor
  · intro pair
    rcases o.bracket?_cases with ⟨-, none, -⟩ | ⟨kind, opening, closer⟩ |
      ⟨_, -, none, -⟩
    · simp [Pairs, none] at pair
    · rcases c.bracket?_cases with ⟨-, -, other⟩ | ⟨_, -, opens⟩ |
        ⟨kind', closing, -, -, first⟩
      · simp [pair.closes] at other
      · simp [pair.closer?_eq_none] at opens
      · have same : some kind.closer = some kind'.closer := by
          rw [← closer, pair.1, first]
        obtain rfl := BracketKind.closer_injective (Option.some.inj same)
        exact ⟨kind, opening, closing⟩
    · simp [Pairs, none] at pair
  · rintro ⟨kind, opening, closing⟩
    obtain ⟨closes, first⟩ := closes_of_closing closing
    exact pairs_of_closes (first ▸ closer?_of_opening opening) closes

end Token

private theorem brackets_append (ts ts' : List Token) :
    brackets (ts ++ ts') = brackets ts ++ brackets ts' :=
  List.filterMap_append

private theorem brackets_cons {t : Token} {sign : Bracket}
    (h : t.bracket? = some sign) (ts : List Token) :
    brackets (t :: ts) = sign :: brackets ts :=
  List.filterMap_cons_some h

private theorem Balanced.wellNested {ts : List Token} (h : Balanced ts) :
    WellNested (brackets ts) := by
  induction h with
  | nil => exact .nil
  | plain notOpening notClosing _ ih =>
      rwa [brackets,
        List.filterMap_cons_none
          (Token.bracket?_eq_none_iff.2 ⟨notOpening, notClosing⟩)]
  | group pair _ _ ihInner ihRest =>
      obtain ⟨kind, opening, closing⟩ := Token.pairs_iff.1 pair
      rw [brackets_append, brackets_cons opening, brackets_cons closing]
      exact .group ihInner ihRest

private theorem balanced_of_plain {ts : List Token}
    (plain : ∀ t ∈ ts, t.bracket? = none) : Balanced ts := by
  induction ts with
  | nil => exact .nil
  | cons t ts ih =>
      obtain ⟨notOpening, notClosing⟩ :=
        Token.bracket?_eq_none_iff.1 (plain t List.mem_cons_self)
      exact .plain notOpening notClosing (ih fun t mem =>
        plain t (List.mem_cons_of_mem _ mem))

private theorem balanced_of_wellNested {ts : List Token} {word : List Bracket}
    (h : WellNested word) (same : brackets ts = word) : Balanced ts := by
  induction h generalizing ts with
  | nil => exact balanced_of_plain (List.filterMap_eq_nil_iff.1 same)
  | group _ _ ihInner ihRest =>
      obtain ⟨front, o, behind, rfl, plain, opening, same⟩ :=
        List.filterMap_eq_cons_iff.1 same
      obtain ⟨inner, behind, rfl, isInner, same⟩ :=
        List.filterMap_eq_append_iff.1 same
      obtain ⟨gap, c, rest, rfl, plain', closing, isRest⟩ :=
        List.filterMap_eq_cons_iff.1 same
      have pair : o.Pairs c := Token.pairs_iff.2 ⟨_, opening, closing⟩
      have inside : Balanced (inner ++ gap) :=
        (ihInner isInner).append (balanced_of_plain plain')
      have group := (balanced_of_plain plain).append
        (.group pair inside (ihRest isRest))
      simpa using group

private theorem balanced_iff_wellNested {ts : List Token} :
    Balanced ts ↔ WellNested (brackets ts) :=
  ⟨Balanced.wellNested, fun h => balanced_of_wellNested h rfl⟩

private theorem partnersFrom_fault {i : Nat} {stack : List (Nat × Char)}
    {ts : List Token} {fault : Fault}
    (h : partnersFrom i stack ts = .error fault) : fault = .unbalanced := by
  induction ts generalizing i stack with
  | nil =>
      rw [partnersFrom] at h
      split at h
      · simp at h
      · exact (Except.error.inj h).symm
  | cons t ts ih =>
      cases opening : t.closer? with
      | some closer => exact ih (partnersFrom_opening opening ▸ h)
      | none =>
          cases closing : t.closes with
          | false => exact ih (partnersFrom_plain opening closing ▸ h)
          | true =>
              cases stack with
              | nil =>
                  rw [partnersFrom_closing_nil opening closing] at h
                  exact (Except.error.inj h).symm
              | cons entry stack =>
                  rw [partnersFrom_closing opening closing] at h
                  split at h
                  · exact ih (map_eq_error_iff.1 h)
                  · exact (Except.error.inj h).symm

private theorem exists_partners_iff {tokens : List Token} :
    (∃ ps, partners tokens = .ok ps) ↔ WellNested (brackets tokens) := by
  constructor
  · rintro ⟨ps, found⟩
    exact (balanced_iff.2 (awaited_of_partnersFrom found)).wellNested
  · intro h
    obtain ⟨b, made⟩ := (balanced_iff_wellNested.2 h).exists_ofTokens
    obtain ⟨ps, found, -⟩ := bind_eq_ok_iff.1 made
    exact ⟨ps, found⟩

/-! ## Pairs of brackets -/

/-- The bracket at `j` closes the group that the one at `i` opens. -/
structure Partnered (tokens : List Token) (i j : Nat) : Prop where
  later : i < j
  sameKind : ∃ kind, bracketAt? tokens i = some (.opening kind) ∧
    bracketAt? tokens j = some (.closing kind)
  nested : WellNested (brackets ((tokens.take j).drop (i + 1)))

section Partnered

variable {tokens : List Token} {i j : Nat}

private theorem exists_split (inside : i < tokens.length) :
    ∃ before t later, tokens = before ++ t :: later ∧ before.length = i := by
  refine ⟨tokens.take i, tokens[i], tokens.drop (i + 1), ?_,
    List.length_take_of_le (Nat.le_of_lt inside)⟩
  rw [← List.drop_eq_getElem_cons inside, List.take_append_drop]

private theorem bracketAt?_length (before : List Token) (t : Token)
    (later : List Token) :
    bracketAt? (before ++ t :: later) before.length = t.bracket? := by
  simp [bracketAt?]

private theorem lt_length_of_bracketAt? {sign : Bracket}
    (h : bracketAt? tokens i = some sign) :
    i < tokens.length := by
  obtain ⟨t, here, -⟩ := Option.bind_eq_some_iff.1 h
  exact (List.getElem?_eq_some_iff.1 here).1

private theorem exists_of_bracketAt? {sign : Bracket}
    (h : bracketAt? tokens i = some sign) :
    ∃ before t later, tokens = before ++ t :: later ∧ before.length = i ∧
      t.bracket? = some sign := by
  obtain ⟨before, t, later, rfl, rfl⟩ := exists_split (lt_length_of_bracketAt? h)
  exact ⟨before, t, later, rfl, rfl, by rwa [bracketAt?_length] at h⟩

private theorem drop_behind (before : List Token) (t : Token) (later : List Token) :
    (before ++ t :: later).drop (before.length + 1) = later := by
  rw [List.drop_length_add_append, List.drop_one, List.tail_cons]

private theorem partnered_of_group {before : List Token} {o : Token}
    {inner : List Token} {c : Token} {later : List Token} (pair : o.Pairs c)
    (inside : Balanced inner) :
    Partnered (before ++ o :: inner ++ c :: later) before.length
      (before.length + inner.length + 1) := by
  have size : (before ++ o :: inner).length = before.length + inner.length + 1 := by
    simp only [List.length_append, List.length_cons]
    omega
  obtain ⟨kind, opening, closing⟩ := Token.pairs_iff.1 pair
  refine ⟨by omega, ⟨kind, ?_, ?_⟩, ?_⟩
  · rw [List.append_assoc, List.cons_append, bracketAt?_length, opening]
  · rw [← size, bracketAt?_length, closing]
  · rw [← size, List.take_left, drop_behind]
    exact inside.wellNested

theorem Partnered.exists_group (h : Partnered tokens i j) :
    ∃ before o inner c later, tokens = before ++ o :: inner ++ c :: later ∧
      before.length = i ∧
      before.length + inner.length + 1 = j ∧ o.Pairs c ∧ Balanced inner := by
  obtain ⟨ahead, ⟨kind, opening, closing⟩, nested⟩ := h
  obtain ⟨front, c, later, rfl, rfl, isClosing⟩ := exists_of_bracketAt? closing
  have inFront : bracketAt? front i = some (.opening kind) := by
    rwa [bracketAt?, List.getElem?_append_left ahead] at opening
  obtain ⟨before, o, inner, rfl, rfl, isOpening⟩ := exists_of_bracketAt? inFront
  rw [List.take_left, drop_behind] at nested
  have size : before.length + inner.length + 1 = (before ++ o :: inner).length := by
    simp only [List.length_append, List.length_cons]
    omega
  exact ⟨before, o, inner, c, later, rfl, rfl, size,
    Token.pairs_iff.2 ⟨kind, isOpening, isClosing⟩,
    balanced_iff_wellNested.2 nested⟩

private theorem Partnered.lt_length (h : Partnered tokens i j) :
    j < tokens.length := by
  obtain ⟨before, o, inner, c, later, rfl, rfl, rfl, -⟩ := h.exists_group
  simp only [List.length_append, List.length_cons]
  omega

private theorem exists_partnered {before ts later : List Token}
    {kind : BracketKind} (balanced : Balanced ts)
    (opening : bracketAt? (before ++ ts ++ later) i = some (.opening kind))
    (ahead : before.length ≤ i) (inside : i < before.length + ts.length) :
    ∃ j, Partnered (before ++ ts ++ later) i j ∧ j < before.length + ts.length := by
  have inPart : bracketAt? ts (i - before.length) = some (.opening kind) := by
    rwa [bracketAt?, List.append_assoc, List.getElem?_append_right ahead,
      List.getElem?_append_left (by omega)] at opening
  obtain ⟨front, o, behind, rfl, place, isOpening⟩ := exists_of_bracketAt? inPart
  obtain ⟨inner, c, rest, rfl, pair, inside⟩ :=
    balanced.exists_group (Token.closer?_of_opening isOpening)
  have found : Partnered ((before ++ front) ++ o :: inner ++ c :: (rest ++ later))
    (before ++ front).length ((before ++ front).length + inner.length + 1) :=
    partnered_of_group pair inside
  have here : (before ++ front).length = i := by
    rw [List.length_append]
    omega
  rw [here] at found
  refine ⟨i + inner.length + 1, by simpa using found, ?_⟩
  simp only [List.length_append, List.length_cons]
  omega

end Partnered

namespace Bracketed.Represents

variable {b : Bracketed} {tokens : List Token} {i j i' j' : Nat}
  {kind : BracketKind}

private theorem partner?_eq (h : b.Represents tokens)
    (pair : Partnered tokens i j) : b.partner? i = some j := by
  obtain ⟨before, o, inner, c, later, rfl, rfl, rfl, pair, inside⟩ :=
    pair.exists_group
  exact h.group rfl pair inside

private theorem partner_unique (h : b.Represents tokens)
    (pair : Partnered tokens i j) (pair' : Partnered tokens i j') : j = j' :=
  Option.some.inj ((h.partner?_eq pair).symm.trans (h.partner?_eq pair'))

private theorem exists_partner_of_opening (h : b.Represents tokens)
    (opening : bracketAt? tokens i = some (.opening kind)) :
    ∃ j, Partnered tokens i j := by
  have inside := lt_length_of_bracketAt? opening
  have whole : bracketAt? ([] ++ tokens ++ []) i = some (.opening kind) := by
    simpa using opening
  obtain ⟨j, pair, -⟩ :=
    exists_partnered h.balanced whole (Nat.zero_le i) (by simpa using inside)
  exact ⟨j, by simpa using pair⟩

/-- Of two groups the one that opens later ends earlier or opens behind the
other. -/
private theorem nested_or_disjoint (h : b.Represents tokens)
    (pair : Partnered tokens i j) (pair' : Partnered tokens i' j')
    (ahead : i < i') : j < i' ∨ j' < j := by
  obtain ⟨kind, opening, -⟩ := pair'.sameKind
  rcases Nat.lt_trichotomy j i' with disjoint | rfl | inside
  · exact .inl disjoint
  · obtain ⟨_, -, closing⟩ := pair.sameKind
    simp [closing] at opening
  · obtain ⟨before, o, inner, c, later, rfl, rfl, rfl, -, balanced⟩ :=
      pair.exists_group
    have size : (before ++ [o]).length = before.length + 1 := by simp
    have shape : before ++ o :: inner ++ c :: later = (before ++ [o]) ++ inner ++
      c :: later := by simp
    rw [shape] at opening
    obtain ⟨j'', pair'', short⟩ :=
      exists_partnered balanced opening (by omega) (by omega)
    obtain rfl := h.partner_unique pair' (shape ▸ pair'')
    right
    omega

private theorem partnered_of_partner? (h : b.Represents tokens)
    (inside : i < tokens.length) (partner : b.partner? i = some j) :
    Partnered tokens i j := by
  obtain ⟨before, t, later, rfl, rfl⟩ := exists_split inside
  cases opening : t.closer? with
  | none => simp [h.single rfl opening] at partner
  | some closer =>
      obtain ⟨inner, c, rest, rfl, pair, balanced, found⟩ :=
        h.exists_partner opening
      obtain rfl : before.length + inner.length + 1 = j :=
        Option.some.inj (found.symm.trans partner)
      have group : Partnered (before ++ t :: inner ++ c :: rest) before.length
        (before.length + inner.length + 1) := partnered_of_group pair balanced
      simpa using group

end Bracketed.Represents

/-! ## Walks -/

/-- The group that opens at `q` holds the place `i`.  Its closing bracket
belongs to it. -/
def Encloses (tokens : List Token) (q i : Nat) : Prop :=
  ∃ j, Partnered tokens q j ∧ q < i ∧ i ≤ j

/-- Punctuation among `stops` stands at `i`. -/
def Stands (tokens : List Token) (stops : List Char) (i : Nat) : Prop :=
  ∃ t, tokens[i]? = some t ∧ t.kind = .punct ∧ t.first ∈ stops

/-- `stop` is the end of the tokens or of a group that opens before `p`. -/
structure WalksTo (tokens : List Token) (p stop : Nat) : Prop where
  ahead : p ≤ stop
  ends : stop = tokens.length ∨ ∃ o, o < p ∧ Partnered tokens o stop

/-- The first place from `p` on and before `stop` with a property, or `stop` if
there is none. -/
inductive FirstAt (P : Nat → Prop) (p stop : Nat) : Nat → Prop where
  | found {r : Nat} (ahead : p ≤ r) (inside : r < stop) (here : P r)
      (before : ∀ i, p ≤ i → i < r → ¬P i) : FirstAt P p stop r
  | missing (before : ∀ i, p ≤ i → i < stop → ¬P i) : FirstAt P p stop stop

/-- The places that a walk from `p` comes to before it finds one of `stops` or
is at `stop`. -/
inductive Bracketed.Visits (b : Bracketed) (stops : List Char) (p stop : Nat) :
    Nat → Prop where
  | start : b.Visits stops p stop p
  | next {i : Nat} {t : Token} (visited : b.Visits stops p stop i)
      (inside : i < stop)
      (here : b.token? i = some t) (other : t.isPunctIn stops = false) :
      b.Visits stops p stop (b.next i)

section Walks

variable {b : Bracketed} {tokens : List Token} {stops : List Char}
  {p q stop i : Nat}

private theorem Token.isPunctIn_iff {t : Token} :
    t.isPunctIn stops = true ↔ t.kind = .punct ∧ t.first ∈ stops := by
  simp [isPunctIn]

private theorem WalksTo.stop_le (h : WalksTo tokens p stop) :
    stop ≤ tokens.length := by
  rcases h.ends with rfl | ⟨o, -, pair⟩
  · exact Nat.le_refl _
  · exact Nat.le_of_lt pair.lt_length

private theorem FirstAt.of_next {P P' : Nat → Prop} {p' r : Nat}
    (ahead : p ≤ p') (rest : FirstAt P' p' stop r)
    (jumped : ∀ i, p ≤ i → i < p' → ¬P i) (same : ∀ i, p' ≤ i → (P i ↔ P' i)) :
    FirstAt P p stop r := by
  have split {s : Nat} (before : ∀ i, p' ≤ i → i < s → ¬P' i) : ∀ i, p ≤ i →
      i < s → ¬P i := by
    intro i from' short
    by_cases here : i < p'
    · exact jumped i from' here
    · rw [same i (by omega)]
      exact before i (by omega) short
  cases rest with
  | found ahead' inside here before =>
      exact .found (by omega) inside ((same r ahead').2 here) (split before)
  | missing before => exact .missing (split before)

namespace Bracketed.Represents

private theorem token?_eq (h : b.Represents tokens) (i : Nat) :
    b.token? i = tokens[i]? := by
  simp [token?, h.tokens_eq]

private theorem token?_ne_none (h : b.Represents tokens)
    (walks : WalksTo tokens p stop) (inside : p < stop) : b.token? p ≠ none := by
  have within : p < tokens.length := Nat.lt_of_lt_of_le inside walks.stop_le
  rw [h.token?_eq, List.getElem?_eq_getElem within]
  exact Option.some_ne_none _

private theorem next_cases (h : b.Represents tokens) (inside : p < tokens.length) :
    (b.next p = p + 1 ∧ ∀ j, ¬Partnered tokens p j) ∨
      ∃ j, Partnered tokens p j ∧ b.next p = j + 1 := by
  cases partner : b.partner? p with
  | none =>
      left
      refine ⟨by simp only [next, partner], ?_⟩
      intro j pair
      simp [h.partner?_eq pair] at partner
  | some j =>
      right
      have pair := h.partnered_of_partner? inside partner
      refine ⟨j, pair, ?_⟩
      simp only [next, partner]
      rw [Nat.max_eq_right (Nat.le_of_lt pair.later)]

/-- A step does not leave the group that the walk is in. -/
private theorem walksTo_next (h : b.Represents tokens)
    (walks : WalksTo tokens p stop) (inside : p < stop) :
    WalksTo tokens (b.next p) stop := by
  have onward := b.lt_next p
  refine ⟨?_, ?_⟩
  · have within : p < tokens.length := Nat.lt_of_lt_of_le inside walks.stop_le
    rcases h.next_cases within with ⟨single, -⟩ | ⟨j, pair, jump⟩
    · omega
    · rcases walks.ends with rfl | ⟨o, before, outer⟩
      · have := pair.lt_length
        omega
      · rcases h.nested_or_disjoint outer pair before with disjoint | nested
        · omega
        · omega
  · rcases walks.ends with whole | ⟨o, before, outer⟩
    · exact .inl whole
    · exact .inr ⟨o, by omega, outer⟩

private theorem encloses_of_jumped (h : b.Represents tokens)
    (inside : p < tokens.length) (ahead : p < i) (short : i < b.next p) :
    Encloses tokens p i := by
  rcases h.next_cases inside with ⟨single, -⟩ | ⟨j, pair, jump⟩
  · omega
  · exact ⟨j, pair, ahead, by omega⟩

/-- What opens in the part that a step jumps over ends there too. -/
private theorem not_encloses_of_jumped (h : b.Represents tokens)
    (inside : p < tokens.length) (ahead : p ≤ q) (short : q < b.next p)
    (behind : b.next p ≤ i) : ¬Encloses tokens q i := by
  rintro ⟨j, pair, -, reaches⟩
  rcases h.next_cases inside with ⟨single, plain⟩ | ⟨j', outer, jump⟩
  · obtain rfl : p = q := by omega
    exact plain j pair
  · rcases Nat.eq_or_lt_of_le ahead with rfl | later
    · have := h.partner_unique outer pair
      omega
    · rcases h.nested_or_disjoint outer pair later with disjoint | nested
      · omega
      · omega

private theorem skipTo_first (h : b.Represents tokens) (stops : List Char)
    (walks : WalksTo tokens p stop) :
    FirstAt (fun i => Stands tokens stops i ∧ ∀ q, p ≤ q → q < stop →
      ¬Encloses tokens q i) p stop
      (b.skipTo stops p stop) := by
  fun_induction Bracketed.skipTo b stops p stop with
  | case1 p inside t found here =>
      have stands : Stands tokens stops p :=
        ⟨t, (h.token?_eq p).symm.trans found, Token.isPunctIn_iff.1 here⟩
      refine .found (Nat.le_refl p) inside ⟨stands, ?_⟩ fun i ahead short => by
        omega
      rintro q ahead - ⟨j, -, before, -⟩
      omega
  | case2 p inside t found other ih =>
      have within : p < tokens.length := Nat.lt_of_lt_of_le inside walks.stop_le
      have onward := b.lt_next p
      -- The group that the step jumps over holds the places in it, and what
      -- opens in it holds none behind it, so that the walk from there looks for
      -- the same place.
      refine .of_next (Nat.le_of_lt onward) (ih (h.walksTo_next walks inside)) ?_ ?_
      · rintro i ahead short ⟨⟨t', here, stands⟩, free⟩
        rcases Nat.eq_or_lt_of_le ahead with rfl | later
        · obtain rfl : t = t' :=
            Option.some.inj (found.symm.trans ((h.token?_eq p).trans here))
          exact other (Token.isPunctIn_iff.2 stands)
        · exact free p (Nat.le_refl p) inside
            (h.encloses_of_jumped within later short)
      · intro i behind
        refine and_congr_right fun _ => ⟨fun free q ahead => free q (by omega), ?_⟩
        intro free q ahead short
        by_cases jumped : q < b.next p
        · exact h.not_encloses_of_jumped within ahead jumped behind
        · exact free q (by omega) short
  | case3 p inside absent => exact absurd absent (h.token?_ne_none walks inside)
  | case4 p outside => exact .missing fun i ahead short => by omega

private theorem walksTo_of_visits (h : b.Represents tokens)
    (walks : WalksTo tokens p stop) (visited : b.Visits stops p stop i) :
    WalksTo tokens i stop := by
  induction visited with
  | start => exact walks
  | next _ inside _ _ ih => exact h.walksTo_next ih inside

private theorem visits_skipTo (h : b.Represents tokens)
    (walks : WalksTo tokens i stop) (visited : b.Visits stops p stop i) :
    b.Visits stops p stop (b.skipTo stops i stop) := by
  fun_induction Bracketed.skipTo b stops i stop with
  | case1 => exact visited
  | case2 i inside t found other ih =>
      exact ih (h.walksTo_next walks inside)
        (.next visited inside found (by simpa using other))
  | case3 i inside absent => exact absurd absent (h.token?_ne_none walks inside)
  | case4 i outside =>
      obtain rfl : i = stop := Nat.le_antisymm walks.ahead (by omega)
      exact visited

end Bracketed.Represents

private theorem encloses_iff (plain : ∀ kind : BracketKind, kind.closer ∉ stops)
    (stands : Stands tokens stops i) :
    Encloses tokens q i ↔ ∃ j, Partnered tokens q j ∧ q < i ∧ i < j := by
  constructor
  · rintro ⟨j, pair, ahead, reaches⟩
    refine ⟨j, pair, ahead, Nat.lt_of_le_of_ne reaches ?_⟩
    rintro rfl
    obtain ⟨t, here, -, among⟩ := stands
    obtain ⟨kind, -, closing⟩ := pair.sameKind
    rw [bracketAt?, here, Option.bind_some] at closing
    exact plain kind ((Token.closes_of_closing closing).2 ▸ among)
  · rintro ⟨j, pair, ahead, inside⟩
    exact ⟨j, pair, ahead, Nat.le_of_lt inside⟩

end Walks

private theorem represents_of_partners {tokens : List Token} {ps : Partners}
    (found : partners tokens = .ok ps) :
    Bracketed.Represents ⟨tokens.toArray, ps⟩ tokens :=
  Bracketed.represents_of_ofTokens (bind_eq_ok_iff.2 ⟨ps, found, rfl⟩)

private theorem lookup_partners_iff {tokens : List Token} {ps : Partners}
    (found : partners tokens = .ok ps) {i j : Nat} :
    ps.lookup i = some j ↔ Partnered tokens i j := by
  have h := represents_of_partners found
  constructor
  · intro partner
    obtain ⟨before, after, shape, -⟩ := List.lookup_eq_some_iff.1 partner
    have mem : (i, j) ∈ ps := by simp [shape]
    rcases opening_of_mem_partners found mem with ⟨entry, none, -⟩ |
      ⟨n, t, place, here, -⟩
    · simp at none
    · obtain rfl : i = n := by omega
      exact h.partnered_of_partner? (List.getElem?_eq_some_iff.1 here).1 partner
  · exact h.partner?_eq

/-- A token list has partners exactly if its brackets are well nested.  Each
opening bracket then has one partner, behind it and of its kind, with a well
nested part between the two, and of two such pairs one lies inside the other or
behind it.  So a walk to the end of the tokens, or of a group it starts in,
stops at the first stop that no group opened on the way holds, and comes to no
place behind its end. -/
theorem partners_nested (tokens : List Token) :
    ((∃ ps, partners tokens = .ok ps) ↔ WellNested (brackets tokens)) ∧
      (partners tokens = .error .unbalanced ↔ ¬WellNested (brackets tokens)) ∧
      ∀ ps, partners tokens = .ok ps → let b : Bracketed := ⟨tokens.toArray, ps⟩
        (∀ i j, ps.lookup i = some j ↔ Partnered tokens i j) ∧
        (∀ i kind, bracketAt? tokens i = some (.opening kind) →
          ∃! j, Partnered tokens i j) ∧
        (∀ i j i' j', Partnered tokens i j → Partnered tokens i' j' → i < i' →
          j < i' ∨ j' < j) ∧
        ∀ (stops : List Char) (p stop : Nat), WalksTo tokens p stop →
          FirstAt (fun i => Stands tokens stops i ∧ ∀ q, p ≤ q → q < stop →
            ¬Encloses tokens q i) p stop (b.skipTo stops p stop) ∧
          ((∀ kind : BracketKind, kind.closer ∉ stops) →
            FirstAt (fun i => Stands tokens stops i ∧
              ∀ q, p ≤ q → q < stop → ∀ j, Partnered tokens q j → ¬(q < i ∧ i < j))
              p stop (b.skipTo stops p stop)) ∧
          (∀ i, b.Visits stops p stop i → i ≤ stop) ∧
          b.Visits stops p stop (b.skipTo stops p stop) := by
  refine ⟨exists_partners_iff, ?_, ?_⟩
  · rw [← exists_partners_iff]
    cases found : partners tokens with
    | ok ps => simp
    | error fault => simp [partnersFrom_fault found]
  · intro ps found b
    have h : b.Represents tokens := represents_of_partners found
    refine ⟨fun i j => lookup_partners_iff found, ?_, ?_, ?_⟩
    · intro i kind opening
      obtain ⟨j, pair⟩ := h.exists_partner_of_opening opening
      exact ⟨j, pair, fun j' pair' => h.partner_unique pair' pair⟩
    · intro i j i' j' pair pair' ahead
      exact h.nested_or_disjoint pair pair' ahead
    · intro stops p stop walks
      have first := h.skipTo_first stops walks
      refine ⟨first, ?_, fun i visited => (h.walksTo_of_visits walks visited).ahead,
        h.visits_skipTo walks .start⟩
      intro plain
      refine .of_next (Nat.le_refl p) first (fun i ahead short => by omega)
        fun i _ => ?_
      refine and_congr_right fun stands => ?_
      simp only [encloses_iff plain stands, not_exists, not_and]

/-- The tokens of `f([a,{b}],c)`. -/
def nestedCall : List Token :=
  [.name 'f' [] 0, .punct '(' 1, .punct '[' 2, .name 'a' [] 3,
    .punct ',' 4, .punct '{' 5, .name 'b' [] 6, .punct '}' 7,
    .punct ']' 8, .punct ',' 9, .name 'c' [] 10, .punct ')' 11]

def nestedPartners : Partners := [(5, 7), (2, 8), (1, 11)]

/-- A walk inside the outer group jumps over the comma inside the two others. -/
theorem partners_nested_call :
    partners nestedCall = .ok nestedPartners ∧ WellNested (brackets nestedCall) ∧
      Partnered nestedCall 2 8 ∧ Partnered nestedCall 5 7 ∧ (8 < 5 ∨ 7 < 8) ∧
      (∃! j, Partnered nestedCall 5 j) ∧ WalksTo nestedCall 2 11 ∧
      FirstAt (fun i => Stands nestedCall [','] i ∧
        ∀ q, 2 ≤ q → q < 11 → ∀ j, Partnered nestedCall q j →
        ¬(q < i ∧ i < j)) 2 11 9 ∧
      Bracketed.Visits ⟨nestedCall.toArray, nestedPartners⟩ [','] 2 11 9 := by
  have found : partners nestedCall = .ok nestedPartners := by decide
  obtain ⟨nested, -, matched⟩ := partners_nested nestedCall
  obtain ⟨pairs, unique, apart, walks⟩ := matched nestedPartners found
  have call : Partnered nestedCall 1 11 := (pairs 1 11).1 (by decide)
  have outer : Partnered nestedCall 2 8 := (pairs 2 8).1 (by decide)
  have inner : Partnered nestedCall 5 7 := (pairs 5 7).1 (by decide)
  have within : WalksTo nestedCall 2 11 := ⟨by decide, .inr ⟨1, by decide, call⟩⟩
  have noClosers : ∀ kind : BracketKind, kind.closer ∉ [','] := by
    intro kind
    cases kind <;> decide
  have stopped : Bracketed.skipTo ⟨nestedCall.toArray, nestedPartners⟩ [',']
      2 11 = 9 := by
    decide +kernel
  obtain ⟨-, first, -, visits⟩ := walks [','] 2 11 within
  exact ⟨found, nested.1 ⟨nestedPartners, found⟩, outer, inner,
    apart 2 8 5 7 outer inner (by decide),
    unique 5 .curly (by decide), within, stopped ▸ first noClosers,
    stopped ▸ visits⟩

end Showcase.Registry

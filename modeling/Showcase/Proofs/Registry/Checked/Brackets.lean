import Showcase.Proofs.Registry.Checked.Escapes
import Showcase.Proofs.Registry.Reading

/-!
# Checked brackets

Tokens are read at an index and brackets are looked up among the partners, each
a step that can fail.  A walk stays inside because it asks for its end before
each step; the bracket that opens the list has a partner because the brackets
are matched (`Matched`).
-/

namespace Showcase.Registry.Checked

def tokenAt (tokens : Array Token) (i : Nat) : Except Mishap Token :=
  match tokens[i]? with
  | some token => .ok token
  | none => .error .outOfRange

def partnerAt (b : Bracketed) (i : Nat) : Except Mishap Nat :=
  match b.partner? i with
  | some j => .ok j
  | none => .error .unpaired

theorem tokenAt_eq_ok {b : Bracketed} {i : Nat} {token : Token}
    (found : b.token? i = some token) :
    tokenAt b.tokens i = .ok token := by
  have : b.tokens[i]? = some token := found
  rw [tokenAt, this]

theorem partnerAt_eq_ok {b : Bracketed} {i j : Nat}
    (found : b.partner? i = some j) :
    partnerAt b i = .ok j := by
  rw [partnerAt, found]

theorem exists_token {b : Bracketed} {i : Nat} (inside : i < b.size) :
    ∃ token, b.token? i = some token :=
  ⟨b.tokens[i], Array.getElem?_eq_getElem inside⟩

theorem hasText_eq_beq {b : Bracketed} {i : Nat} {token : Token}
    (found : b.token? i = some token) (text : Text) :
    b.hasText i text = (token.text == text) := by
  rw [Bracketed.hasText, found]

def textIs (b : Bracketed) (i : Nat) (text : Text) : Except Mishap Bool :=
  if i < b.size then do
    let token ← tokenAt b.tokens i
    return token.text == text
  else return false

theorem textIs_eq_ok (b : Bracketed) (i : Nat) (text : Text) :
    textIs b i text = .ok (b.hasText i text) := by
  by_cases inside : i < b.size
  · obtain ⟨token, found⟩ := exists_token inside
    rw [textIs, if_pos inside, tokenAt_eq_ok found, hasText_eq_beq found]
    rfl
  · have absent : b.hasText i text = false :=
      Bool.eq_false_iff.2 fun found => inside (b.lt_size_of_hasText found)
    rw [textIs, if_neg inside, absent]
    rfl

/-- The index behind a token, or behind the whole group that it opens. -/
def nextAt (b : Bracketed) (i : Nat) : Except Mishap Nat :=
  if (b.partner? i).isSome then do
    let j ← partnerAt b i
    return max i j + 1
  else return i + 1

theorem nextAt_eq_ok (b : Bracketed) (i : Nat) : nextAt b i = .ok (b.next i) := by
  cases partner : b.partner? i with
  | none => simp [nextAt, partner, Bracketed.next, pure, Except.pure]
  | some j => simp [nextAt, partnerAt, partner, Bracketed.next, pure, Except.pure]

/-! ## Matching -/

/-- Matches the brackets from index `i` on.  The stack holds the indices of the
brackets still open. -/
def partnersAt (tokens : Array Token) (i : Nat) (stack : List Nat) :
    Except Mishap Partners :=
  if i < tokens.size then do
    let token ← tokenAt tokens i
    if token.closer?.isSome then partnersAt tokens (i + 1) (i :: stack)
    else if token.closes then
      match stack with
      | [] => .error (.fault .unbalanced)
      | top :: below => do
          let opener ← tokenAt tokens top
          if opener.closer? = some token.first then do
            let later ← partnersAt tokens (i + 1) below
            return (top, i) :: later
          else .error (.fault .unbalanced)
    else partnersAt tokens (i + 1) stack
  else if stack.isEmpty then return [] else .error (.fault .unbalanced)
termination_by tokens.size - i

/-- The tokens together with their partners. -/
def matchBrackets (tokens : List Token) : Except Mishap Bracketed := do
  let pairs ← partnersAt tokens.toArray 0 []
  return ⟨tokens.toArray, pairs⟩

/-- The entries of a stack are opening brackets of the tokens, each with its
closer. -/
def Awaits (tokens : List Token) (stack : List (Nat × Char)) : Prop :=
  ∀ entry ∈ stack, ∃ opener, tokens[entry.1]? = some opener ∧
    opener.closer? = some entry.2

private theorem partnersAt_eq {tokens : List Token} {stack : List (Nat × Char)}
    (awaits : Awaits tokens stack) {i : Nat} {rest : List Token}
    (shape : tokens.drop i = rest) :
    partnersAt tokens.toArray i (stack.map Prod.fst) =
      (partnersFrom i stack rest).mapError .fault := by
  induction rest generalizing i stack with
  | nil =>
      have outside : ¬ i < tokens.toArray.size := by
        simpa using List.drop_eq_nil_iff.1 shape
      rw [partnersAt, if_neg outside, partnersFrom]
      cases stack <;> rfl
  | cons t rest ih =>
      have found : tokens[i]? = some t := getElem?_of_drop shape
      have inside : i < tokens.toArray.size := by
        simpa using (List.getElem?_eq_some_iff.1 found).1
      have first : tokenAt tokens.toArray i = .ok t := by
        simp [tokenAt, found]
      have behind := drop_succ shape
      rw [partnersAt, if_pos inside, first, ok_bind]
      cases opening : t.closer? with
      | some closer =>
          have deeper : Awaits tokens ((i, closer) :: stack) := by
            intro entry mem
            rcases List.mem_cons.1 mem with rfl | mem
            · exact ⟨t, found, opening⟩
            · exact awaits entry mem
          rw [partnersFrom_opening opening, ← ih deeper behind]
          rfl
      | none =>
          cases closing : t.closes with
          | false =>
              rw [partnersFrom_plain opening closing, ← ih awaits behind]
              rfl
          | true =>
              cases stack with
              | nil =>
                  rw [partnersFrom_closing_nil opening closing]
                  rfl
              | cons entry below =>
                  obtain ⟨top, closer⟩ := entry
                  obtain ⟨opener, there, waits⟩ :=
                    awaits (top, closer) List.mem_cons_self
                  have last : tokenAt tokens.toArray top = .ok opener := by
                    simp [tokenAt, there]
                  rw [partnersFrom_closing opening closing]
                  simp only [Option.isSome_none, Bool.false_eq_true, if_false,
                    if_true, List.map_cons,
                    last, ok_bind, waits, Option.some.injEq]
                  by_cases same : closer = t.first
                  · have lower : Awaits tokens below := fun entry mem =>
                      awaits entry (List.mem_cons_of_mem _ mem)
                    rw [if_pos same, if_pos same, ih lower behind]
                    cases partnersFrom (i + 1) below rest <;> rfl
                  · rw [if_neg same, if_neg same]
                    rfl

theorem matchBrackets_eq (tokens : List Token) :
    matchBrackets tokens = (Bracketed.ofTokens tokens).mapError .fault := by
  have none : Awaits tokens [] := fun entry mem => absurd mem List.not_mem_nil
  have pairs : partnersAt tokens.toArray 0 [] = (partners tokens).mapError .fault :=
    partnersAt_eq none rfl
  rw [matchBrackets, pairs, Bracketed.ofTokens]
  cases partners tokens <;> rfl

/-- Every square bracket that opens has a partner, and every partner is a token. -/
structure Matched (b : Bracketed) : Prop where
  inside {i j : Nat} : b.partner? i = some j → i < b.size → j < b.size
  opening {i : Nat} : b.hasText i ['['] = true → ∃ j, b.partner? i = some j

theorem matched_of_represents {b : Bracketed} {tokens : List Token}
    (h : b.Represents tokens) (genuine : ∀ t ∈ tokens, t.Genuine) : Matched b := by
  have split {i : Nat} (inside : i < b.size) :
      ∃ before t later, tokens = before ++ t :: later ∧ before.length = i ∧
        b.token? i = some t := by
    rw [h.size_eq] at inside
    have shape : tokens = tokens.take i ++ tokens[i] :: tokens.drop (i + 1) := by
      rw [← List.drop_eq_getElem_cons inside, List.take_append_drop]
    have found : b.token? i = some tokens[i] := by
      simp [Bracketed.token?, h.tokens_eq, inside]
    exact ⟨tokens.take i, tokens[i], tokens.drop (i + 1), shape,
      by simp; omega, found⟩
  constructor
  · intro i j partner inside
    obtain ⟨before, t, later, rfl, rfl, -⟩ := split inside
    cases opening : t.closer? with
    | none =>
        rw [h.single rfl opening] at partner
        simp at partner
    | some closer =>
        obtain ⟨inner, c, rest, rfl, -, -, found⟩ := h.exists_partner opening
        obtain rfl : before.length + inner.length + 1 = j := by
          rw [found] at partner
          exact Option.some.inj partner
        rw [h.size_eq]
        simp only [List.length_append, List.length_cons]
        omega
  · intro i text
    obtain ⟨before, t, later, rfl, rfl, found⟩ := split (b.lt_size_of_hasText text)
    rw [hasText_eq_beq found, beq_iff_eq] at text
    have opening := (genuine t (by simp)).closer? text rfl
    obtain ⟨inner, -, -, -, -, -, partner⟩ := h.exists_partner opening
    exact ⟨_, partner⟩

/-! ## Walking -/

/-- The first index from `i` on, at the depth of `i`, of a punctuation character
among `stops`; `stop` if there is none. -/
def skipTo (b : Bracketed) (stops : List Char) (i stop : Nat) : Except Mishap Nat :=
  if i < stop then do
    let token ← tokenAt b.tokens i
    if token.isPunctIn stops then return i
    else
      let next ← nextAt b i
      skipTo b stops (max (i + 1) next) stop
  else return stop
termination_by stop - i

theorem skipTo_eq_ok {b : Bracketed} {stop : Nat} (inside : stop ≤ b.size)
    (stops : List Char) (i : Nat) :
    skipTo b stops i stop = .ok (b.skipTo stops i stop) := by
  induction i using skipTo.induct stop with
  | case1 i lt ih =>
      obtain ⟨token, found⟩ := exists_token (Nat.lt_of_lt_of_le lt inside)
      have later := ih (b.next i)
      rw [Nat.max_eq_right (b.lt_next i)] at later
      rw [skipTo, if_pos lt, tokenAt_eq_ok found, ok_bind, nextAt_eq_ok, ok_bind,
        Nat.max_eq_right (b.lt_next i), later, Bracketed.skipTo.eq_def b stops i,
        if_pos lt, found]
      by_cases here : token.isPunctIn stops = true
      · simp only [if_pos here]
        rfl
      · simp only [if_neg here]
  | case2 i outside =>
      rw [skipTo, if_neg outside, Bracketed.skipTo, if_neg outside]
      rfl

theorem skipTo_le (b : Bracketed) (stops : List Char) (i stop : Nat) :
    b.skipTo stops i stop ≤ stop := by
  fun_induction Bracketed.skipTo b stops i stop with
  | case1 => omega
  | case2 _ _ _ _ _ ih => exact ih
  | case3 => exact Nat.le_refl _
  | case4 => exact Nat.le_refl _

/-! ## The list -/

/-- Whether the tokens at an index and behind have these two texts. -/
def textsAre (b : Bracketed) (i : Nat) (text behind : Text) :
    Except Mishap Bool := do
  let first ← textIs b i text
  if first then textIs b (i + 1) behind else return false

private theorem textsAre_eq_ok (b : Bracketed) (i : Nat) (text behind : Text) :
    textsAre b i text behind =
      .ok (b.hasText i text && b.hasText (i + 1) behind) := by
  rw [textsAre, textIs_eq_ok, ok_bind, textIs_eq_ok]
  cases b.hasText i text <;> rfl

/-- The index of the sign that assigns to the variable declared before `i`, or
of the one that ends its declaration. -/
def assignment (b : Bracketed) (i : Nat) : Except Mishap Nat :=
  match _walk : skipTo b ['=', ';'] i b.size with
  | .error mishap => .error mishap
  | .ok found =>
      match arrow : textsAre b found ['='] ['>'] with
      | .error mishap => .error mishap
      | .ok true => assignment b (found + 2)
      | .ok false => .ok found
termination_by b.size - i
decreasing_by
  obtain rfl : b.skipTo ['=', ';'] i b.size = found := by
    rw [skipTo_eq_ok (Nat.le_refl _)] at _walk
    exact Except.ok.inj _walk
  rw [textsAre_eq_ok] at arrow
  have inside := b.lt_size_of_hasText
    (Bool.and_eq_true_iff.1 (Except.ok.inj arrow)).1
  have := b.le_skipTo_of_lt inside
  omega

/-- The index of the bracket that opens the list declared at `i`, if one is. -/
def listAt (b : Bracketed) (listName : Text) (i : Nat) :
    Except Mishap (Option Nat) := do
  let token ← tokenAt b.tokens i
  if token.kind ≠ .name ∨ token.text ≠ listName ∨ i = 0 then return none
  else
    let previous ← tokenAt b.tokens (i - 1)
    if previous.text = "const".toList ∨ previous.text = "let".toList ∨
      previous.text = "var".toList then
      let equals ← assignment b (i + 1)
      let opened ← textsAre b equals ['='] ['[']
      if opened then return some (equals + 1) else return none
    else return none

/-- The index of the bracket that opens the list declared at `i` or behind. -/
def findFrom (b : Bracketed) (listName : Text) (i : Nat) : Except Mishap Nat :=
  if i < b.size then do
    let opener? ← listAt b listName i
    match opener? with
    | some opener => return opener
    | none => findFrom b listName (i + 1)
  else .error (.fault (.listNotFound listName))
termination_by b.size - i

def findList (b : Bracketed) (listName : Text) : Except Mishap Nat :=
  findFrom b listName 0

variable {b : Bracketed}

private theorem assignment_step (b : Bracketed) {i found : Nat}
    (walk : b.skipTo ['=', ';'] i b.size = found) :
    assignment b i =
      if b.hasText found ['='] && b.hasText (found + 1) ['>'] then
        assignment b (found + 2)
      else .ok found := by
  have walk' : skipTo b ['=', ';'] i b.size = .ok found := by
    rw [skipTo_eq_ok (Nat.le_refl _), walk]
  rw [assignment]
  split
  next failed => simp [walk'] at failed
  next found' walked =>
    obtain rfl : found = found' := Except.ok.inj (walk'.symm.trans walked)
    split
    next failed => simp [textsAre_eq_ok] at failed
    next arrow =>
      rw [textsAre_eq_ok] at arrow
      rw [if_pos (Except.ok.inj arrow)]
    next plain =>
      rw [textsAre_eq_ok] at plain
      rw [if_neg (by simp [Except.ok.inj plain])]

private theorem assignment_eq_ok (b : Bracketed) (i : Nat) :
    assignment b i = .ok (b.assignment i) := by
  fun_induction Bracketed.assignment b i with
  | case1 i found arrow ih =>
      rw [assignment_step b rfl, if_pos (Bool.and_eq_true_iff.2 arrow)]
      exact ih
  | case2 i found noArrow =>
      rw [assignment_step b rfl, if_neg fun arrow =>
        noArrow (Bool.and_eq_true_iff.1 arrow)]

private theorem listAt_eq_ok {i : Nat} (inside : i < b.size) (listName : Text) :
    listAt b listName i = .ok (b.listAt? listName i) := by
  obtain ⟨token, found⟩ := exists_token inside
  rw [listAt, tokenAt_eq_ok found, ok_bind, Bracketed.listAt?, Bracketed.declares,
    found]
  by_cases other : token.kind ≠ .name ∨ token.text ≠ listName ∨ i = 0
  · have undeclared : (token.kind == .name && token.text == listName && i != 0) =
        false := by
      rw [Bool.eq_false_iff]
      simp only [ne_eq, Bool.and_eq_true, beq_iff_eq, bne_iff_ne]
      tauto
    simp only [if_pos other, undeclared, Bool.false_and, Bool.false_eq_true,
      if_false]
    rfl
  · have named : (token.kind == .name && token.text == listName && i != 0) =
        true := by
      simp only [Bool.and_eq_true, beq_iff_eq, bne_iff_ne]
      tauto
    obtain ⟨previous, before⟩ := exists_token (b := b) (i := i - 1) (by omega)
    simp only [if_neg other, named, Bool.true_and, tokenAt_eq_ok before, ok_bind,
      hasText_eq_beq before,
      Bool.or_eq_true, beq_iff_eq, or_assoc, assignment_eq_ok, textsAre_eq_ok]
    split
    · split <;> rfl
    · rfl

private theorem findFrom_eq (listName : Text) (i : Nat) :
    findFrom b listName i =
      match (List.range' i (b.size - i)).findSome? (b.listAt? listName) with
      | some opener => .ok opener
      | none => .error (.fault (.listNotFound listName)) := by
  induction i using findFrom.induct b with
  | case1 i inside ih =>
      have count : b.size - i = b.size - (i + 1) + 1 := by omega
      rw [findFrom, if_pos inside, listAt_eq_ok inside, ok_bind, ih, count,
        List.range'_succ, List.findSome?_cons]
      cases b.listAt? listName i <;> rfl
  | case2 i outside =>
      have none : b.size - i = 0 := by omega
      rw [findFrom, if_neg outside, none]
      rfl

theorem findList_eq (b : Bracketed) (listName : Text) :
    findList b listName = (b.findList listName).mapError .fault := by
  rw [findList, findFrom_eq, Bracketed.findList, Nat.sub_zero,
    ← List.range_eq_range']
  cases (List.range b.size).findSome? (b.listAt? listName) <;> rfl

/-- The index that the search for the list gives is that of an opening bracket. -/
theorem hasText_of_findList {listName : Text} {opener : Nat}
    (h : b.findList listName = .ok opener) :
    b.hasText opener ['['] = true := by
  rw [Bracketed.findList] at h
  split at h
  next i found =>
    cases h
    obtain ⟨start, -, here⟩ := List.exists_of_findSome?_eq_some found
    rw [Bracketed.listAt?] at here
    split at here
    next =>
      dsimp only at here
      split at here
      next opened =>
        cases here
        exact (Bool.and_eq_true_iff.1 opened).2
      next => simp at here
    next => simp at here
  next => simp at h

end Showcase.Registry.Checked

import Showcase.Proofs.Registry.Checked.Brackets
import Showcase.Registry.Import

/-!
# Checked imports

An import statement is read past the brackets of its clause without looking at
their partners.  What keeps the reader inside is that the word `import` opens a
statement only where another token follows.
-/

namespace Showcase.Registry.Checked

def followsDot (b : Bracketed) (i : Nat) : Except Mishap Bool :=
  if i = 0 then return false
  else do
    let previous ← tokenAt b.tokens (i - 1)
    return previous.text == ['.']

def startsImport (b : Bracketed) (i : Nat) : Except Mishap Bool := do
  let token ← tokenAt b.tokens i
  if token.kind == .name && token.text == "import".toList then
    let isMember ← followsDot b i
    if isMember ∨ b.size ≤ i + 1 then return false
    else
      let behind ← tokenAt b.tokens (i + 1)
      return behind.text != ['('] && behind.text != ['.']
  else return false

/-- Where the clause behind the word `import` at `i` starts. -/
def clauseStart (b : Bracketed) (i : Nat) : Except Mishap Nat := do
  let isType ← textIs b (i + 1) "type".toList
  if isType ∧ i + 2 < b.size then
    let token ← tokenAt b.tokens (i + 2)
    if token.kind = .name ∧ token.text ≠ "from".toList then return i + 2
      else return i + 1
  else return i + 1

/-- The name that the clause at `i` starts with, if `from` or a comma follows. -/
def defaultName? (b : Bracketed) (i : Nat) : Except Mishap (Option Text) := do
  let token ← tokenAt b.tokens i
  if token.kind = .name then
    let beforeFrom ← textIs b (i + 1) "from".toList
    let beforeComma ← textIs b (i + 1) [',']
    if beforeFrom || beforeComma then return some token.text else return none
  else return none

/-- The names bound from index `i` on, and the index at which the clause ends. -/
def boundNames (b : Bracketed) (i : Nat) : Except Mishap (List Text × Nat) :=
  if i < b.size then do
    let token ← tokenAt b.tokens i
    if token.kind = .string then return ([], i)
    else if token.kind = .name ∧ Bracketed.isClauseWord token.text = false then do
      let renamed ← textIs b (i + 1) "as".toList
      if renamed then boundNames b (i + 2)
      else
        let (names, stop) ← boundNames b (i + 1)
        return (token.text :: names, stop)
    else boundNames b (i + 1)
  else return ([], i)
termination_by b.size - i

/-- The import statement whose first word is the token at `i`, and the index of
its last token. -/
def importAt (b : Bracketed) (i start : Nat) : Except Mishap (Import × Nat) := do
  let clause ← clauseStart b i
  let default? ← defaultName? b clause
  let (names, j) ← boundNames b clause
  if b.size ≤ j then .error (.fault .importWithoutSource)
  else
    let source ← tokenAt b.tokens j
    let ended ← textIs b (j + 1) [';']
    let last := if ended then j + 1 else j
    let final ← tokenAt b.tokens last
    let path ← decode source.text
    return (⟨⟨start, final.stop⟩, path, default?, names⟩, last)

def importsFrom (b : Bracketed) (i : Nat) : Except Mishap (List Import) :=
  if i < b.size then do
    let token ← tokenAt b.tokens i
    if (b.partner? i).isSome then
      let next ← nextAt b i
      importsFrom b (max (i + 1) next)
    else
      let starts ← startsImport b i
      if starts then
        let (statement, last) ← importAt b i token.start
        let later ← importsFrom b (max i last + 1)
        return statement :: later
      else importsFrom b (i + 1)
  else return []
termination_by b.size - i

variable {b : Bracketed} {i : Nat}

private theorem followsDot_eq_ok (inside : i < b.size) :
    followsDot b i = .ok (i != 0 && b.hasText (i - 1) ['.']) := by
  by_cases first : i = 0
  · rw [followsDot, if_pos first, first]
    rfl
  · obtain ⟨previous, before⟩ := exists_token (b := b) (i := i - 1) (by omega)
    rw [followsDot, if_neg first, tokenAt_eq_ok before, hasText_eq_beq before,
      bne_iff_ne.2 first]
    rfl

private theorem startsImport_eq_ok (inside : i < b.size) :
    startsImport b i = .ok (b.startsImport i) := by
  obtain ⟨token, found⟩ := exists_token inside
  rw [startsImport, tokenAt_eq_ok found, ok_bind, Bracketed.startsImport, found]
  cases named : token.kind == .name && token.text == "import".toList with
  | false =>
      simp only [named, Bool.false_and, Bool.false_eq_true, if_false]
      rfl
  | true =>
      have member : (i == 0 || !b.hasText (i - 1) ['.']) =
          !(i != 0 && b.hasText (i - 1) ['.']) := by
        cases h : i == 0 <;> simp [bne, h]
      simp only [named, if_true, Bool.true_and, followsDot_eq_ok inside,
        ok_bind, member]
      by_cases last : b.size ≤ i + 1
      · have short : ¬ i + 1 < b.size := Nat.not_lt.2 last
        simp only [last, or_true, if_true, short, decide_false, Bool.and_false,
          Bool.false_and]
        rfl
      · obtain ⟨behind, next⟩ := exists_token (Nat.not_le.1 last)
        simp only [last, or_false, tokenAt_eq_ok next, ok_bind, hasText_eq_beq next,
          decide_eq_true (Nat.not_le.1 last), Bool.and_true]
        cases i != 0 && b.hasText (i - 1) ['.'] <;> rfl

private theorem clauseStart_eq_ok (b : Bracketed) (i : Nat) :
    clauseStart b i = .ok (b.clauseStart i) := by
  rw [clauseStart, textIs_eq_ok, ok_bind, Bracketed.clauseStart]
  by_cases typed : b.hasText (i + 1) "type".toList = true
  · by_cases inside : i + 2 < b.size
    · obtain ⟨token, found⟩ := exists_token inside
      simp only [typed, inside, and_self, if_true, tokenAt_eq_ok found, ok_bind,
        found, Bool.and_eq_true, beq_iff_eq, bne_iff_ne]
      split <;> rfl
    · have absent : b.token? (i + 2) = none :=
        Array.getElem?_eq_none (Nat.not_lt.1 inside)
      simp only [typed, inside, and_false, if_false, if_true, absent]
      rfl
  · rw [if_neg typed, if_neg fun both => typed both.1]
    rfl

private theorem clauseStart_lt (starts : b.startsImport i = true) :
    b.clauseStart i < b.size := by
  have next : i + 1 < b.size := by
    unfold Bracketed.startsImport at starts
    split at starts
    · simp only [Bool.and_eq_true, decide_eq_true_eq] at starts
      exact starts.1.1.2
    · simp at starts
  unfold Bracketed.clauseStart
  split
  · split
    next token found =>
      have : i + 2 < b.size := (Array.getElem?_eq_some_iff.1 found).1
      split <;> assumption
    next => exact next
  · exact next

private theorem defaultName?_eq_ok (inside : i < b.size) :
    defaultName? b i = .ok (b.defaultName? i) := by
  obtain ⟨token, found⟩ := exists_token inside
  rw [defaultName?, tokenAt_eq_ok found, ok_bind, Bracketed.defaultName?, found]
  by_cases named : token.kind = .name
  · simp only [named, textIs_eq_ok, ok_bind, if_true, beq_self_eq_true,
      Bool.true_and]
    split <;> rfl
  · have other : (token.kind == TokenKind.name) = false :=
      beq_eq_false_iff_ne.2 named
    simp only [if_neg named, other, Bool.false_and, Bool.false_eq_true, if_false]
    rfl

private theorem boundNames_eq_ok (inside : i ≤ b.size) :
    boundNames b i = .ok (b.boundNames i) := by
  induction i using boundNames.induct b with
  | case1 i lt renamed next =>
      obtain ⟨token, found⟩ := exists_token lt
      rw [boundNames, if_pos lt, tokenAt_eq_ok found, ok_bind,
        Bracketed.boundNames, if_pos lt, found]
      by_cases literal : token.kind = .string
      · simp only [if_pos literal]
        rfl
      · simp only [if_neg literal, textIs_eq_ok, ok_bind, next lt]
        split
        · by_cases renames : b.hasText (i + 1) "as".toList = true
          · rw [if_pos renames, if_pos renames,
              renamed (b.lt_size_of_hasText renames)]
          · rw [if_neg renames, if_neg renames]
            rfl
        · rfl
  | case2 i outside =>
      have last : i = b.size := by omega
      rw [boundNames, if_neg outside, Bracketed.boundNames, if_neg outside, last]
      rfl

theorem importAt_eq (starts : b.startsImport i = true) (start : Nat) :
    importAt b i start = (b.importAt i start).mapError .fault := by
  have first := clauseStart_lt starts
  rw [importAt, clauseStart_eq_ok, ok_bind, defaultName?_eq_ok first, ok_bind,
    boundNames_eq_ok (Nat.le_of_lt first), ok_bind, Bracketed.importAt]
  obtain ⟨names, j⟩ := b.boundNames (b.clauseStart i)
  simp only []
  by_cases inside : j < b.size
  · obtain ⟨source, found⟩ := exists_token inside
    have path : decode source.text = source.value.mapError .fault :=
      decode_eq source.first source.rest
    rw [if_neg (Nat.not_le.2 inside), tokenAt_eq_ok found, ok_bind, textIs_eq_ok,
      ok_bind, found, path]
    obtain ⟨final, last⟩ : ∃ final, b.token? (if b.hasText (j + 1) [';'] then
        j + 1 else j) = some final := by
      split
      next ended => exact exists_token (b.lt_size_of_hasText ended)
      next => exact exists_token inside
    rw [tokenAt_eq_ok last, ok_bind]
    simp only [last, Option.map_some, Option.getD_some]
    cases source.value <;> rfl
  · have absent : b.token? j = none := Array.getElem?_eq_none (Nat.not_lt.1 inside)
    rw [if_pos (Nat.not_lt.1 inside), absent]
    rfl

theorem importsFrom_eq (b : Bracketed) (i : Nat) :
    importsFrom b i = (b.importsFrom i).mapError .fault := by
  induction i using importsFrom.induct b with
  | case1 i inside afterGroup afterImport next =>
      obtain ⟨token, found⟩ := exists_token inside
      rw [importsFrom, if_pos inside, tokenAt_eq_ok found, ok_bind,
        Bracketed.importsFrom, if_pos inside]
      by_cases group : (b.partner? i).isSome = true
      · have later := afterGroup (b.next i)
        rw [Nat.max_eq_right (b.lt_next i)] at later
        rw [if_pos group, if_pos group, nextAt_eq_ok, ok_bind,
          Nat.max_eq_right (b.lt_next i), later]
      rw [if_neg group, if_neg group, startsImport_eq_ok inside, ok_bind]
      by_cases starts : b.startsImport i = true
      · rw [if_pos starts, if_pos starts, importAt_eq starts, found,
          Option.map_some, Option.getD_some]
        cases read : b.importAt i token.start with
        | error fault => rfl
        | ok found =>
            obtain ⟨statement, last⟩ := found
            simp only [mapError_ok, ok_bind, afterImport last]
            cases b.importsFrom (max i last + 1) <;> rfl
      · rw [if_neg starts, if_neg starts, next]
  | case2 i outside =>
      rw [importsFrom, if_neg outside, Bracketed.importsFrom, if_neg outside]
      rfl

end Showcase.Registry.Checked

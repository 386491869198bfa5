import Mathlib.Data.List.Basic
import Showcase.Json.Reader
import Showcase.Json.Writer
import Showcase.Proofs.CodePoints
import Showcase.Proofs.Outcome

/-!
# Values that are read as they were written

A value without doubles is written in the indented form and read again as it
was, if what is written can be encoded (`read_indented`).
-/

namespace Showcase.Json

/-! ## Strings -/

private theorem readString_of_unit {first : Char} {rest : Text}
    {point : CodePoint} {n : Nat} (notQuote : first ≠ '"')
    (unit : stringUnit? first rest = some (point, n)) :
    readString (first :: rest) =
      (readString (rest.drop n)).map fun (points, after) =>
        (point :: points, after) := by
  rw [readString, if_neg notQuote, unit]

private theorem shortEscape?_cases (p : CodePoint) :
    (∃ letter, shortEscape? p.val = some ['\\', letter] ∧
      ∀ rest, stringUnit? '\\' (letter :: rest) = some (p, 1)) ∨
    shortEscape? p.val = none ∧ p.val ≠ 0x22 ∧ p.val ≠ 0x5C := by
  have same {c : Char} (h : p.val = c.toNat) : p = .ofChar c := by
    cases p
    cases h
    rfl
  unfold shortEscape?
  split
  next h => exact .inl ⟨'"', rfl, fun rest => by rw [same (c := '"') h]; rfl⟩
  next quote =>
  split
  next h => exact .inl ⟨'\\', rfl, fun rest => by rw [same (c := '\\') h]; rfl⟩
  next escape =>
  split
  next h => exact .inl ⟨'n', rfl, fun rest => by rw [same (c := '\n') h]; rfl⟩
  split
  next h => exact .inl ⟨'r', rfl, fun rest => by rw [same (c := '\r') h]; rfl⟩
  split
  next h => exact .inl ⟨'t', rfl, fun rest => by rw [same (c := '\t') h]; rfl⟩
  split
  next h => exact .inl ⟨'f', rfl, fun rest => by rw [same (c := '\x0c') h]; rfl⟩
  split
  next h => exact .inl ⟨'b', rfl, fun rest => by rw [same (c := '\x08') h]; rfl⟩
  exact .inr ⟨rfl, quote, escape⟩

private theorem stringUnit?_unicodeEscape {p : CodePoint} (small : p.val < 0x20)
    (rest : Text) :
    stringUnit? '\\' ('u' :: (hex4 p.val ++ rest)) = some (p, 5) := by
  have digits : hexPoint? (hex4 p.val) = some p := hexPoint?_hex4 (by omega)
  have notHigh : p.isHigh = false := by
    simp only [CodePoint.isHigh, Bool.and_eq_false_iff, decide_eq_false_iff_not]
    omega
  unfold hex4 at digits ⊢
  simp only [stringUnit?, if_true, List.cons_append, List.nil_append,
    digits, notHigh]

/-- What one code point is written as is read as this code point. -/
private theorem readString_piece {p : CodePoint} {piece : Text}
    (h : toPoints piece = plainPoint p) (rest : Text) :
    readString (piece ++ rest) =
      (readString rest).map fun (points, after) => (p :: points, after) := by
  unfold plainPoint at h
  rcases shortEscape?_cases p with ⟨letter, short, unit⟩ |
    ⟨long, notQuote, notEscape⟩
  · rw [short] at h
    obtain rfl := toPoints_injective h
    exact readString_of_unit (by decide) (unit rest)
  · rw [long] at h
    dsimp only at h
    split at h
    next small =>
      obtain rfl := toPoints_injective h
      exact readString_of_unit (by decide) (stringUnit?_unicodeEscape small rest)
    next plain =>
      obtain ⟨c, nothing, rfl, rfl, last⟩ := List.map_eq_cons_iff.1 h
      obtain rfl := List.map_eq_nil_iff.1 last
      have quote : c ≠ '"' := by
        rintro rfl
        exact notQuote rfl
      have escape : c ≠ '\\' := by
        rintro rfl
        exact notEscape rfl
      have unit : stringUnit? c rest = some (.ofChar c, 0) := by
        rw [stringUnit?.eq_def, if_neg escape,
          if_neg (show ¬c.toNat < 0x20 from plain)]
      exact readString_of_unit quote unit

private theorem readString_plain {points : List CodePoint} {body : Text}
    (h : toPoints body = points.flatMap plainPoint) (rest : Text) :
    readString (body ++ '"' :: rest) = some (points, rest) := by
  induction points generalizing body with
  | nil =>
      obtain rfl := List.map_eq_nil_iff.1 h
      rw [List.nil_append, readString, if_pos rfl]
  | cons p points ih =>
      rw [List.flatMap_cons] at h
      obtain ⟨piece, later, rfl, here, behind⟩ := exists_of_toPoints_append h
      rw [List.append_assoc, readString_piece here, ih behind]
      rfl

/-! ## Numbers -/

/-- What stands behind a value: nothing, a comma or a line break. -/
def Behind (rest : Text) : Prop := ∀ c ∈ rest.head?, c = ',' ∨ c = '\n'

private theorem toDigits_of_pos {n : Nat} (pos : 0 < n) :
    ∃ digit digits, Nat.toDigits 10 n = digit :: digits ∧ digit ≠ '0' := by
  induction n using Nat.strongRecOn with
  | _ n ih =>
      by_cases small : n < 10
      · refine ⟨_, [], Nat.toDigits_of_lt_base small, ?_⟩
        have all : ∀ d : Fin 10, 0 < d.val → d.val.digitChar ≠ '0' := by decide
        exact all ⟨n, small⟩ pos
      · obtain ⟨digit, digits, shape, nonzero⟩ := ih (n / 10) (by omega) (by omega)
        rw [Nat.toDigits_of_base_le (by omega) (by omega), shape]
        exact ⟨digit, digits ++ _, rfl, nonzero⟩

private theorem takeWhile_toDigits (n : Nat) {rest : Text} (behind : Behind rest) :
    (Nat.toDigits 10 n ++ rest).takeWhile Char.isDigit = Nat.toDigits 10 n := by
  have isDigit : ∀ c ∈ Nat.toDigits 10 n, c.isDigit = true :=
    fun c mem => Nat.isDigit_of_mem_toDigits (by omega) (by omega) mem
  rw [List.takeWhile_append_of_pos isDigit]
  cases rest with
  | nil => simp
  | cons c rest =>
      have notDigit : c.isDigit = false := by
        rcases behind c rfl with rfl | rfl <;> rfl
      simp [notDigit]

private theorem fraction?_of_behind {rest : Text} (behind : Behind rest) :
    fraction? rest = none := by
  unfold fraction?
  split
  · rcases behind '.' rfl with h | h <;> simp at h
  · rfl

private theorem exponent?_of_behind {rest : Text} (behind : Behind rest) :
    exponent? rest = none := by
  cases rest with
  | nil => rfl
  | cons c rest =>
      have notE : ¬(c = 'e' ∨ c = 'E') := by
        rcases behind c rfl with rfl | rfl <;> decide
      simp only [exponent?, if_neg notE]

private theorem digitsValue_toDigits (n : Nat) :
    digitsValue (Nat.toDigits 10 n) = n :=
  Nat.ofDigitChars_ten_toDigits

private theorem readNumber_toDigits (negative : Bool) {n : Nat}
    (short : Double.decimalLength n ≤ 4300) {rest : Text}
    (behind : Behind rest) :
    readNumber negative (Nat.toDigits 10 n ++ rest) =
      .ok (.int (if negative then -(n : Int) else n), rest) := by
  rcases Nat.eq_zero_or_pos n with rfl | pos
  · rw [Nat.toDigits_zero, List.singleton_append, readNumber]
    simp [fraction?_of_behind behind, exponent?_of_behind behind, digitsValue]
  · rw [readNumber, takeWhile_toDigits n behind]
    · simp only [List.isEmpty_iff, Nat.toDigits_ne_nil, if_false, List.drop_left,
        fraction?_of_behind behind, exponent?_of_behind behind, Option.map_none,
        Option.getD_none,
        digitsValue_toDigits,
        if_pos (show (Nat.toDigits 10 n).length ≤ 4300 from short)]
    · intro tail
      obtain ⟨digit, digits, shape, nonzero⟩ := toDigits_of_pos pos
      rw [shape]
      exact fun same => nonzero (List.cons.inj same).1

private theorem ne_of_isDigit {digit c : Char} (h : digit.isDigit = true)
    (notDigit : c.isDigit = false) :
    c ≠ digit := by
  rintro rfl
  simp [h] at notDigit

private theorem exists_toDigits (n : Nat) :
    ∃ digit digits, Nat.toDigits 10 n = digit :: digits ∧ digit.isDigit = true := by
  obtain ⟨digit, digits, shape⟩ :=
    List.exists_cons_of_ne_nil (Nat.toDigits_ne_nil (n := n) (b := 10))
  refine ⟨digit, digits, shape, Nat.isDigit_of_mem_toDigits (b := 10) (n :=
    n) (by omega) (by omega) ?_⟩
  simp [shape]

private theorem findSome?_words (n : Int) (rest : Text) :
    (words.findSome? fun (word, value) =>
      (after? word (integer n ++ rest)).map (value, ·)) = none := by
  obtain ⟨digit, digits, shape, isDigit⟩ := exists_toDigits n.natAbs
  have other (c : Char) (notDigit : c.isDigit = false) :=
    ne_of_isDigit isDigit notDigit
  unfold integer
  split <;>
    simp [words, after?, shape, other 'n' rfl, other 't' rfl, other 'f' rfl,
      other 'N' rfl, other 'I' rfl, other '-' rfl]

private theorem readScalar_integer {n : Int}
    (short : Double.decimalLength n.natAbs ≤ 4300) {rest : Text}
    (behind : Behind rest) :
    readScalar (integer n ++ rest) = .ok (.int n, rest) := by
  have noWord := findSome?_words n rest
  unfold integer at noWord ⊢
  split at noWord
  next negative =>
    rw [if_pos negative, List.cons_append, readScalar, ← List.cons_append, noWord]
    dsimp only
    rw [readNumber_toDigits true short behind, if_pos rfl]
    congr
    omega
  next positive =>
    rw [if_neg positive, readScalar, noWord]
    · dsimp only
      rw [readNumber_toDigits false short behind]
      simp
      omega
    · intro tail
      obtain ⟨digit, digits, shape, isDigit⟩ := exists_toDigits n.natAbs
      rw [shape]
      exact fun same => ne_of_isDigit isDigit rfl (List.cons.inj same).1.symm

/-! ## Values -/

/-- A value without doubles, with integers that are short enough to be read and
objects that have one member of each name. -/
inductive Plain : Json → Prop where
  | null : Plain .null
  | bool (value : Bool) : Plain (.bool value)
  | int {n : Int} (short : Double.decimalLength n.natAbs ≤ 4300) : Plain (.int n)
  | string (points : List CodePoint) : Plain (.string points)
  | array {elements : List Json} (all : ∀ element ∈ elements, Plain element) :
      Plain (.array elements)
  | object {members : List (Key × Json)} (distinct : (members.map Prod.fst).Nodup)
      (all : ∀ member ∈ members, Plain member.2) : Plain (.object members)

/-- A value is read from its text, and what stands behind it is left. -/
def ReadsBack (value : Json) : Prop :=
  ∀ depth text rest fuel room, toPoints text = indentedAt depth value →
    Behind rest →
    text.length ≤ fuel → value.depth ≤ room →
      readValue fuel room (text ++ rest) = .ok (value, rest)

private theorem skipSpace_cons {c : Char} (h : isSpace c = false) (text : Text) :
    skipSpace (c :: text) = c :: text :=
  List.dropWhile_cons_of_neg (by simp [h])

private theorem skipSpace_newLine {depth : Nat} {gap : Text}
    (h : toPoints gap = newLine depth) (text : Text) :
    gap ≠ [] ∧ skipSpace (gap ++ text) = skipSpace text := by
  obtain rfl := toPoints_injective h
  refine ⟨by simp, ?_⟩
  rw [skipSpace, List.dropWhile_append_of_pos]
  · rfl
  · intro c mem
    rcases List.mem_cons.1 mem with rfl | mem
    · rfl
    · rw [List.eq_of_mem_replicate mem]
      rfl

theorem exists_brace {depth : Nat} {members : List (Key × Json)} {text : Text}
    (h : toPoints text = indentedAt depth (.object members)) :
    ∃ rest, text = '\x7b' :: rest := by
  cases members with
  | nil => exact ⟨_, toPoints_injective h⟩
  | cons member members =>
      obtain ⟨rest, rfl, -⟩ := exists_of_toPoints_cons h
      exact ⟨rest, rfl⟩

private theorem exists_head {depth : Nat} {value : Json} {text : Text}
    (plain : value.Plain) (h : toPoints text = indentedAt depth value) :
    ∃ c rest, text = c :: rest ∧ isSpace c = false ∧ c ≠ ']' := by
  cases plain with
  | null => exact ⟨_, _, toPoints_injective h, by decide, by decide⟩
  | bool value =>
      cases value with
      | false => exact ⟨_, _, toPoints_injective h, by decide, by decide⟩
      | true => exact ⟨_, _, toPoints_injective h, by decide, by decide⟩
  | @int n short =>
      obtain rfl := toPoints_injective h
      obtain ⟨digit, digits, shape, isDigit⟩ := exists_toDigits n.natAbs
      unfold integer
      split
      · exact ⟨'-', _, rfl, by decide, by decide⟩
      · refine ⟨digit, digits, shape, ?_, (ne_of_isDigit isDigit rfl).symm⟩
        have other (c : Char) (notDigit : c.isDigit = false) : digit ≠ c :=
          (ne_of_isDigit isDigit notDigit).symm
        simp [isSpace, other ' ' rfl, other '\t' rfl, other '\n' rfl,
          other '\r' rfl]
  | string points =>
      obtain ⟨rest, rfl, -⟩ := exists_of_toPoints_cons h
      exact ⟨_, _, rfl, by decide, by decide⟩
  | @array elements _ =>
      cases elements with
      | nil => exact ⟨_, _, toPoints_injective h, by decide, by decide⟩
      | cons element elements =>
          obtain ⟨rest, rfl, -⟩ := exists_of_toPoints_cons h
          exact ⟨_, _, rfl, by decide, by decide⟩
  | object _ _ =>
      obtain ⟨rest, rfl⟩ := exists_brace h
      exact ⟨_, _, rfl, by decide, by decide⟩

/-- An entry on a line of its own is read behind the line break. -/
theorem ReadsBack.entry {depth : Nat} {value : Json} (reads : ReadsBack value)
    (plain : value.Plain) {text tail : Text} {fuel room : Nat}
    (h : toPoints text = newLine depth ++ indentedAt depth value)
    (behind : Behind tail) (enough : text.length ≤ fuel + 1)
    (deep : value.depth ≤ room) :
    ∃ c more, skipSpace (text ++ tail) = c :: more ∧ c ≠ ']' ∧
      readValue fuel room (c :: more) = .ok (value, tail) := by
  obtain ⟨gap, written, rfl, isGap, isValue⟩ := exists_of_toPoints_append h
  obtain ⟨c, more, rfl, notSpace, notClosing⟩ := exists_head plain isValue
  obtain ⟨wide, skipped⟩ := skipSpace_newLine isGap (c :: more ++ tail)
  have long := List.length_pos_iff.2 wide
  rw [List.length_append] at enough
  refine ⟨c, more ++ tail, ?_, notClosing,
    reads _ _ tail fuel room isValue behind (by omega) deep⟩
  rw [List.append_assoc, skipped, List.cons_append, skipSpace_cons notSpace]

/-- The elements of an array are read up to its closing bracket. -/
private theorem readElements_indented {depth : Nat} {elements : List Json}
    (some : elements ≠ []) (plain : ∀ element ∈ elements, element.Plain)
    (reads : ∀ element ∈ elements, ReadsBack element) {text tail rest : Text}
    {fuel room : Nat} (h : toPoints text = indentedElements depth elements)
    (behind : Behind tail) (closing : skipSpace tail = ']' :: rest)
    (enough : text.length ≤ fuel) (deep : elementsDepth elements ≤ room) :
    ∃ c more, skipSpace (text ++ tail) = c :: more ∧ c ≠ ']' ∧
      readElements fuel room (c :: more) = .ok (elements, rest) := by
  induction elements generalizing text fuel with
  | nil => exact absurd rfl some
  | cons element elements ih =>
      have plain' := plain element (by simp)
      have reads' := reads element (by simp)
      obtain ⟨deep', deeper⟩ := Nat.max_le.1 deep
      by_cases last : elements = []
      · subst last
        rw [indentedElements] at h
        have long : 0 < text.length := by
          have := congrArg List.length h
          simp [toPoints, newLine] at this
          omega
        obtain ⟨fuel, rfl⟩ : ∃ less, fuel = less + 1 := ⟨fuel - 1, by omega⟩
        obtain ⟨c, more, shape, notClosing, read⟩ :=
          reads'.entry plain' h behind enough deep'
        refine ⟨c, more, shape, notClosing, ?_⟩
        rw [readElements, read, ok_bind]
        simp only [closing]
        rfl
      · rw [indentedElements.eq_3 _ _ _ last] at h
        obtain ⟨entry, later, rfl, isEntry, isLater⟩ := exists_of_toPoints_append h
        obtain ⟨others, rfl, isOthers⟩ := exists_of_toPoints_cons isLater
        rw [List.length_append, List.length_cons] at enough
        obtain ⟨fuel, rfl⟩ : ∃ less, fuel = less + 1 := ⟨fuel - 1, by omega⟩
        have comma : Behind (',' :: (others ++ tail)) := by
          rintro c ⟨⟩
          exact .inl rfl
        obtain ⟨c, more, shape, notClosing, read⟩ :=
          reads'.entry plain' isEntry comma (show entry.length ≤ fuel + 1 by
            omega) deep'
        obtain ⟨c', more', shape', -, read'⟩ :=
          ih last (fun other mem => plain other (by simp [mem]))
          (fun other mem => reads other (by simp [mem])) isOthers
          (show others.length ≤ fuel by omega) deeper
        refine ⟨c, more, ?_, notClosing, ?_⟩
        · rw [List.append_assoc, List.cons_append, shape]
        · rw [readElements, read, ok_bind]
          simp only [skipSpace_cons (show isSpace ',' = false from rfl), shape',
            read', ok_bind]
          rfl

private theorem exists_quoted {key : Key} {text : Text}
    (h : toPoints text = plainString key) (rest : Text) :
    ∃ body, text ++ rest = '"' :: body ∧ readString body = some (key, rest) := by
  rw [plainString, List.cons_append] at h
  obtain ⟨quoted, rfl, isQuoted⟩ := exists_of_toPoints_cons h
  obtain ⟨body, quote, rfl, isBody, isQuote⟩ := exists_of_toPoints_append isQuoted
  obtain rfl : quote = ['"'] := toPoints_injective isQuote
  refine ⟨body ++ ['"'] ++ rest, rfl, ?_⟩
  rw [List.append_assoc]
  exact readString_plain isBody rest

/-- A member on a line of its own is a key, a colon and a value. -/
theorem ReadsBack.member {depth : Nat} {key : Key} {value : Json}
    (reads : ReadsBack value) (plain : value.Plain) {text tail : Text}
    {fuel room : Nat}
    (h : toPoints text = newLine depth ++ plainString key ++
      toPoints ": ".toList ++ indentedAt depth value)
    (behind : Behind tail) (enough : text.length ≤ fuel + 1)
    (deep : value.depth ≤ room) :
    ∃ body after, skipSpace (text ++ tail) = '"' :: body ∧
      readString body = some (key, ':' :: after) ∧
      readValue fuel room (skipSpace after) = .ok (value, tail) := by
  obtain ⟨front, written, rfl, isFront, isValue⟩ := exists_of_toPoints_append h
  obtain ⟨front, colon, rfl, isFront, isColon⟩ := exists_of_toPoints_append isFront
  obtain ⟨gap, name, rfl, isGap, isName⟩ := exists_of_toPoints_append isFront
  obtain rfl := toPoints_injective isColon
  obtain ⟨body, shape, read⟩ :=
    exists_quoted isName (": ".toList ++ written ++ tail)
  refine ⟨body, ' ' :: (written ++ tail), ?_, read, ?_⟩
  · have parts : gap ++ name ++ ": ".toList ++ written ++ tail =
        gap ++ '"' :: body := by
      rw [← shape]
      simp only [List.append_assoc]
    rw [parts, (skipSpace_newLine isGap _).2, skipSpace_cons (by decide)]
  · obtain ⟨c, more, rfl, notSpace, -⟩ := exists_head plain isValue
    have space : skipSpace (' ' :: (c :: more ++ tail)) = c :: more ++ tail :=
      skipSpace_cons notSpace _
    rw [space]
    have wide : ": ".toList.length = 2 := rfl
    simp only [List.length_append] at enough
    exact reads _ _ tail fuel room isValue behind (by omega) deep

/-- The members of an object are read up to its closing brace. -/
private theorem readMembers_indented {depth : Nat} {members : List (Key × Json)}
    (some : members ≠ []) (plain : ∀ member ∈ members, member.2.Plain)
    (reads : ∀ member ∈ members, ReadsBack member.2) {text tail rest : Text}
    {fuel room : Nat} (h : toPoints text = indentedMembers depth members)
    (behind : Behind tail) (closing : skipSpace tail = '\x7d' :: rest)
    (enough : text.length ≤ fuel) (deep : membersDepth members ≤ room) :
    ∃ body, skipSpace (text ++ tail) = '"' :: body ∧
      readMembers fuel room ('"' :: body) = .ok (members, rest) := by
  induction members generalizing text fuel with
  | nil => exact absurd rfl some
  | cons member members ih =>
      obtain ⟨key, value⟩ := member
      have plain' : value.Plain := plain (key, value) (by simp)
      have reads' : ReadsBack value := reads (key, value) (by simp)
      obtain ⟨deep', deeper⟩ := Nat.max_le.1 deep
      by_cases last : members = []
      · subst last
        rw [indentedMembers] at h
        have long : 0 < text.length := by
          have := congrArg List.length h
          simp [toPoints, newLine] at this
          omega
        obtain ⟨fuel, rfl⟩ : ∃ less, fuel = less + 1 := ⟨fuel - 1, by omega⟩
        obtain ⟨body, after, shape, isKey, read⟩ :=
          reads'.member plain' h behind enough deep'
        refine ⟨body, shape, ?_⟩
        rw [readMembers, isKey]
        simp only [skipSpace_cons (show isSpace ':' = false from rfl), read,
          ok_bind, closing]
        rfl
      · rw [indentedMembers.eq_3 _ _ _ _ last] at h
        obtain ⟨entry, later, rfl, isEntry, isLater⟩ := exists_of_toPoints_append h
        obtain ⟨others, rfl, isOthers⟩ := exists_of_toPoints_cons isLater
        rw [List.length_append, List.length_cons] at enough
        obtain ⟨fuel, rfl⟩ : ∃ less, fuel = less + 1 := ⟨fuel - 1, by omega⟩
        have comma : Behind (',' :: (others ++ tail)) := by
          rintro c ⟨⟩
          exact .inl rfl
        obtain ⟨body, after, shape, isKey, read⟩ :=
          reads'.member plain' isEntry comma (show entry.length ≤ fuel + 1 by
            omega) deep'
        obtain ⟨body', shape', read'⟩ :=
          ih last (fun other mem => plain other (by simp [mem]))
          (fun other mem => reads other (by simp [mem])) isOthers
          (show others.length ≤ fuel by omega) deeper
        refine ⟨body, ?_, ?_⟩
        · rw [List.append_assoc, List.cons_append, shape]
        · rw [readMembers, isKey]
          simp only [skipSpace_cons (show isSpace ':' = false from rfl),
            read, ok_bind,
            skipSpace_cons (show isSpace ',' = false from rfl), shape', read']
          rfl

private theorem collect_eq {pairs : List (Key × Json)}
    (distinct : (pairs.map Prod.fst).Nodup) :
    collect pairs = pairs := by
  suffices folded : ∀ front, ((front ++ pairs).map Prod.fst).Nodup →
      pairs.foldl (fun members m => setMember members m.1 m.2) front =
        front ++ pairs from
    folded [] distinct
  clear distinct
  intro front distinct
  induction pairs generalizing front with
  | nil => simp
  | cons pair pairs ih =>
      have absent : front.any (·.1 == pair.1) = false := by
        rw [List.map_append, List.nodup_append] at distinct
        simp only [List.any_eq_false, beq_iff_eq]
        intro member mem
        exact distinct.2.2 _ (List.mem_map_of_mem mem) _ (by simp)
      rw [List.foldl_cons, setMember, absent, if_neg (by simp),
        ih _ (by simpa using distinct)]
      simp

private theorem behind_newLine {depth : Nat} {gap : Text}
    (h : toPoints gap = newLine depth) (rest : Text) :
    Behind (gap ++ rest) := by
  obtain rfl := toPoints_injective h
  rintro c ⟨⟩
  exact .inr rfl

private theorem ReadsBack.of_succ {value : Json} (plain : value.Plain)
    (h : ∀ depth text rest fuel room, toPoints text = indentedAt depth value →
      Behind rest → text.length ≤ fuel + 1 → value.depth ≤ room → readValue
      (fuel + 1) room (text ++ rest) = .ok (value, rest)) :
    ReadsBack value := by
  intro depth text rest fuel room written behind enough
  obtain ⟨c, more, rfl, -⟩ := exists_head plain written
  cases fuel with
  | zero => simp at enough
  | succ fuel => exact h depth _ rest fuel room written behind enough

/-- An integer is neither a string nor an array nor an object. -/
private theorem readValue_integer {n : Int}
    (short : Double.decimalLength n.natAbs ≤ 4300) {rest : Text}
    (behind : Behind rest) (fuel room : Nat) :
    readValue (fuel + 1) room (integer n ++ rest) = .ok (.int n, rest) := by
  obtain ⟨first, more, shape, notOpening⟩ : ∃ first more,
    integer n = first :: more ∧
      first ≠ '"' ∧ first ≠ '[' ∧ first ≠ '\x7b' := by
    obtain ⟨digit, digits, shape, isDigit⟩ := exists_toDigits n.natAbs
    have other (c : Char) (notDigit : c.isDigit = false) :=
      (ne_of_isDigit isDigit notDigit).symm
    unfold integer
    split
    · exact ⟨_, _, rfl, by decide⟩
    · exact ⟨_, _, shape, other _ rfl, other _ rfl, other _ rfl⟩
  rw [readValue, readScalar_integer short behind]
  all_goals simp [shape, notOpening]

private theorem exists_less {n room : Nat} (h : n + 1 ≤ room) :
    ∃ less, room = less + 1 ∧ n ≤ less :=
  ⟨room - 1, by omega, by omega⟩

private theorem exists_inside {depth : Nat} {text : Text}
    {opening closing : Char} {inner : List CodePoint}
    (h : toPoints text = .ofChar opening :: inner ++ newLine depth ++
      [.ofChar closing]) :
    ∃ inside gap, text = opening :: (inside ++ (gap ++ [closing])) ∧
      toPoints inside = inner ∧
      toPoints gap = newLine depth := by
  rw [List.cons_append, List.cons_append, List.append_assoc] at h
  obtain ⟨behind, rfl, isBehind⟩ := exists_of_toPoints_cons h
  obtain ⟨inside, last, rfl, isInside, isLast⟩ := exists_of_toPoints_append isBehind
  obtain ⟨gap, last, rfl, isGap, isLast⟩ := exists_of_toPoints_append isLast
  obtain rfl : last = [closing] := toPoints_injective isLast
  exact ⟨inside, gap, rfl, isInside, isGap⟩

private theorem Plain.readsBack {value : Json} (plain : value.Plain) :
    ReadsBack value := by
  induction plain with
  | null =>
      refine .of_succ .null fun depth text rest fuel room h behind enough deep => ?_
      obtain rfl := toPoints_injective h
      rfl
  | bool value =>
      refine .of_succ (.bool value)
        fun depth text rest fuel room h behind enough deep => ?_
      cases value <;>
      · obtain rfl := toPoints_injective h
        rfl
  | int short =>
      refine .of_succ (.int short)
        fun depth text rest fuel room h behind enough deep => ?_
      obtain rfl := toPoints_injective h
      exact readValue_integer short behind fuel room
  | string points =>
      refine .of_succ (.string points)
        fun depth text rest fuel room h behind enough deep => ?_
      obtain ⟨body, shape, read⟩ := exists_quoted h rest
      rw [shape, readValue, read]
  | @array elements plain ih =>
      refine .of_succ (.array plain)
        fun depth text rest fuel room h behind enough deep => ?_
      obtain ⟨room, rfl, deeper⟩ :=
        exists_less (show elementsDepth elements + 1 ≤ room from deep)
      cases elements with
      | nil =>
          obtain rfl := toPoints_injective h
          rfl
      | cons element elements =>
          rw [indentedAt] at h
          obtain ⟨inside, gap, rfl, isInside, isGap⟩ := exists_inside h
          rw [List.length_cons, List.length_append] at enough
          obtain ⟨c, more, shape, notClosing, read⟩ :=
            readElements_indented (by simp) plain ih
            isInside (behind_newLine isGap (']' :: rest))
            ((skipSpace_newLine isGap _).2.trans (skipSpace_cons rfl rest))
            (show inside.length ≤ fuel by omega) deeper
          have parts : inside ++ (gap ++ [']']) ++ rest = inside ++
            (gap ++ ']' :: rest) := by simp
          rw [List.cons_append, readValue, parts, shape]
          split
          next same => exact absurd (List.cons.inj same).1 notClosing
          next =>
            rw [read]
            rfl
  | @object members distinct plain ih =>
      refine .of_succ (.object distinct plain)
        fun depth text rest fuel room h behind enough deep => ?_
      obtain ⟨room, rfl, deeper⟩ :=
        exists_less (show membersDepth members + 1 ≤ room from deep)
      cases members with
      | nil =>
          obtain rfl := toPoints_injective h
          rfl
      | cons member members =>
          rw [indentedAt] at h
          obtain ⟨inside, gap, rfl, isInside, isGap⟩ := exists_inside h
          rw [List.length_cons, List.length_append] at enough
          obtain ⟨body, shape, read⟩ := readMembers_indented (by simp) plain ih
            isInside (behind_newLine isGap ('\x7d' :: rest))
            ((skipSpace_newLine isGap _).2.trans (skipSpace_cons rfl rest))
            (show inside.length ≤ fuel by omega) deeper
          have parts : inside ++ (gap ++ ['\x7d']) ++ rest = inside ++
            (gap ++ '\x7d' :: rest) := by simp
          rw [List.cons_append, readValue, parts, shape]
          change (readMembers fuel room ('"' :: body) >>= _) = _
          rw [read, ok_bind]
          dsimp only
          rw [collect_eq distinct]
          rfl

theorem read_indented {value : Json} {text : Text} (plain : value.Plain)
    (h : scalars? value.indented = some text) {room : Nat}
    (deep : value.depth ≤ room) :
    read text room = .ok value := by
  have written := (scalars?_eq_some_iff.1 h).symm
  obtain ⟨c, more, rfl, notSpace, -⟩ := exists_head plain written
  have reads := plain.readsBack 0 _ [] (2 * (c :: more).length + 2) room written
    (by simp [Behind]) (by omega) deep
  rw [List.append_nil] at reads
  rw [read, skipSpace_cons notSpace, reads]
  rfl

end Showcase.Json

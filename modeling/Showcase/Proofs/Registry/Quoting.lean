import Mathlib.Data.List.Basic
import Showcase.Proofs.Registry.Lexeme
import Showcase.Proofs.Registry.LiteralBody
import Showcase.Registry.Line

/-!
# Written literals

A text that is written as a literal is one token, stands on one line, and is read
back as it was (`quote_lexeme`, `decode_quote`).
-/

namespace Showcase.Registry

theorem literalQuote_cases (quoteText : Text) :
    literalQuote quoteText = '"' ∨ literalQuote quoteText = '\'' := by
  unfold literalQuote
  split
  · exact .inr rfl
  · exact .inl rfl

/-- What a character is written as: itself, an escape of one character, or four
digits. -/
private theorem quoteChar_cases {q : Char} (quoted : q = '"' ∨ q = '\'')
    (c : Char) :
    (quoteChar q c = [c] ∧ c ≠ '\\' ∧ c ≠ q ∧ c ≠ '\n') ∨
    (∃ d, quoteChar q c = ['\\', d] ∧ d ≠ 'u' ∧ d ≠ 'x' ∧ d ≠ '\n' ∧
      escaped d = c) ∨
    (quoteChar q c = '\\' :: 'u' :: hex4 c.toNat ∧ c.toNat < 65536) := by
  unfold quoteChar
  split
  next special =>
    refine .inr (.inl ⟨c, rfl, ?_⟩)
    rcases special with rfl | rfl
    · decide
    · rcases quoted with rfl | rfl <;> decide
  next plain =>
    rw [not_or] at plain
    split
    · exact .inr (.inl ⟨'n', rfl, by decide⟩)
    · exact .inr (.inl ⟨'t', rfl, by decide⟩)
    · exact .inr (.inl ⟨'r', rfl, by decide⟩)
    · exact .inr (.inl ⟨'b', rfl, by decide⟩)
    · exact .inr (.inl ⟨'f', rfl, by decide⟩)
    · exact .inr (.inl ⟨'v', rfl, by decide⟩)
    next notNewline _ _ _ _ _ =>
      split
      · exact .inr (.inr ⟨rfl, by omega⟩)
      · exact .inl ⟨rfl, plain.1, plain.2, notNewline⟩

/-! ## One token -/

private theorem hexChar_plain {n : Nat} (h : n < 16) :
    hexChar n ≠ '\\' ∧ hexChar n ≠ '"' ∧ hexChar n ≠ '\'' ∧ hexChar n ≠ '\n' ∧
      hexChar n ≠ '{' := by
  have all : ∀ n : Fin 16, hexChar n ≠ '\\' ∧ hexChar n ≠ '"' ∧ hexChar n ≠ '\'' ∧
      hexChar n ≠ '\n' ∧ hexChar n ≠ '{' := by
    decide
  exact all ⟨n, h⟩

private theorem closing?_plain {q c : Char} (rest : Text) (escape : c ≠ '\\')
    (open' : c ≠ q) (inLine : c ≠ '\n') :
    closing? q (c :: rest) = (closing? q rest).map (· + 1) := by
  rw [closing?_cons rest escape, if_neg open',
    if_neg (fun broken => inLine broken.1)]

private theorem closing?_hexChar {q : Char} (quoted : q = '"' ∨ q = '\'')
    (n : Nat) (rest : Text) :
    closing? q (hexChar (n % 16) :: rest) = (closing? q rest).map (· + 1) := by
  obtain ⟨escape, double, single, inLine, -⟩ :=
    hexChar_plain (Nat.mod_lt n (by decide : 0 < 16))
  rcases quoted with rfl | rfl
  · exact closing?_plain rest escape double inLine
  · exact closing?_plain rest escape single inLine

private theorem closing?_quoteChar {q : Char} (quoted : q = '"' ∨ q = '\'')
    (c : Char) (rest : Text) :
    closing? q (quoteChar q c ++ rest) =
      (closing? q rest).map (· + (quoteChar q c).length) := by
  rcases quoteChar_cases quoted c with ⟨shape, escape, notQuote, inLine⟩ |
    ⟨d, shape, -⟩ | ⟨shape, -⟩
  · rw [shape]
    exact closing?_plain rest escape notQuote inLine
  · rw [shape]
    exact closing?_escape q d rest
  · rw [shape]
    simp only [hex4, List.cons_append, List.nil_append, closing?_escape,
      closing?_hexChar quoted,
      Option.map_map, List.length_cons, List.length_nil]
    rfl

private theorem closing?_flatMap {q : Char} (quoted : q = '"' ∨ q = '\'')
    (value : Text) :
    closing? q (value.flatMap (quoteChar q) ++ [q]) =
      some (value.flatMap (quoteChar q) ++ [q]).length := by
  induction value with
  | nil =>
      have notEscape : q ≠ '\\' := by rcases quoted with rfl | rfl <;> decide
      simp [closing?_cons [] notEscape]
  | cons c value ih =>
      rw [List.flatMap_cons, List.append_assoc, closing?_quoteChar quoted, ih]
      simp
      omega

theorem quote_lexeme (value quoteText : Text) :
    ∃ body, quote value quoteText = literalQuote quoteText :: body ∧
      Lexeme (some .string) (literalQuote quoteText :: body) := by
  have quoted := literalQuote_cases quoteText
  refine ⟨_, rfl, .string ?_ (closing?_flatMap quoted value)⟩
  rcases quoted with q | q <;> rw [q] <;> decide

/-! ## One line -/

private theorem hexChar_inLine {n : Nat} (h : n < 16) :
    isLineEnd (hexChar n) = false := by
  have all : ∀ n < 16, isLineEnd (hexChar n) = false := by decide
  exact all n h

private theorem quoteChar_inLine {q : Char} (quoted : q = '"' ∨ q = '\'')
    (c : Char) :
    ∀ d ∈ quoteChar q c, isLineEnd d = false := by
  have hex (n : Nat) : isLineEnd (hexChar (n % 16)) = false :=
    hexChar_inLine (Nat.mod_lt _ (by decide))
  unfold quoteChar
  split
  next special =>
    have inLine : isLineEnd c = false := by
      rcases special with rfl | rfl
      · decide
      · rcases quoted with rfl | rfl <;> decide
    have escape : isLineEnd '\\' = false := by decide
    simp [inLine, escape]
  · split
    · decide
    · decide
    · decide
    · decide
    · decide
    · decide
    next notFeed _ notReturn _ _ _ =>
      split
      · simp only [hex4, List.mem_cons, List.not_mem_nil, or_false]
        rintro d (rfl | rfl | rfl | rfl | rfl | rfl) <;> first | decide |
          exact hex _
      · have inLine : isLineEnd c = false := by
          simpa [isLineEnd] using ⟨notFeed, notReturn⟩
        simp [inLine]

theorem quote_inLine (value quoteText : Text) :
    ∀ d ∈ quote value quoteText, isLineEnd d = false := by
  have quoted := literalQuote_cases quoteText
  have end' : isLineEnd (literalQuote quoteText) = false := by
    rcases quoted with q | q <;> rw [q] <;> decide
  intro d mem
  simp only [quote, List.mem_append, List.mem_cons, List.mem_flatMap,
    List.not_mem_nil, or_false] at mem
  rcases mem with (rfl | ⟨c, -, inside⟩) | rfl
  · exact end'
  · exact quoteChar_inLine quoted c d inside
  · exact end'

/-! ## Reading back -/

/-- The escapes, one condition after the other. -/
theorem unit?_escape (escape : Char) (digits : Text) :
    unit? '\\' (escape :: digits) =
      if escape = 'u' ∧ digits.head? = some '{' then
        let inner := digits.tail.takeWhile (· ≠ '}')
        (if inner.length < digits.tail.length then hexPoint? inner else
          none).map fun point =>
          (some point, inner.length + 3)
      else if escape = 'u' then
        (if 4 ≤ digits.length then hexPoint? (digits.take 4) else none).map
          fun point => (some point, 5)
      else if escape = 'x' then
        (if 2 ≤ digits.length then hexPoint? (digits.take 2) else none).map
          fun point => (some point, 3)
      else if escape = '\n' then some (none, 1)
      else some (some (.ofChar (escaped escape)), 1) := by
  by_cases named : escape = 'u'
  · subst named
    cases digits with
    | nil => rfl
    | cons d inner =>
        by_cases brace : d = '{'
        · subst brace
          simp [unit?, apply_ite (Option.map _)]
        · simp [unit?, brace, apply_ite (Option.map _)]
  · by_cases byte : escape = 'x'
    · subst byte
      simp [unit?, apply_ite (Option.map _)]
    · by_cases broken : escape = '\n'
      · subst broken
        simp [unit?]
      · simp [unit?, named, byte, broken]

theorem bodyPoints?_cons {first : Char} {rest : Text}
    {point? : Option CodePoint} {n : Nat}
    (h : unit? first rest = some (point?, n)) :
    bodyPoints? (first :: rest) =
      (bodyPoints? (rest.drop n)).map (point?.toList ++ ·) := by
  rw [bodyPoints?, h]

private theorem pointUnit?_ofChar_ofChar (c d : Char) (rest : List CodePoint) :
    pointUnit? (.ofChar c) (.ofChar d :: rest) =
      unit? c (d :: rest.map CodePoint.seen) := by
  rw [pointUnit?, CodePoint.toChar?_ofChar, List.head?_cons, Option.any_some,
    CodePoint.isSurrogate_ofChar, List.map_cons, CodePoint.seen_ofChar]
  simp

private theorem literalPoints?_cons {first : CodePoint} {rest : List CodePoint}
    {point? : Option CodePoint} {n : Nat}
    (h : pointUnit? first rest = some (point?, n)) :
    literalPoints? (first :: rest) =
      (literalPoints? (rest.drop n)).map (point?.toList ++ ·) := by
  rw [literalPoints?, h]

/-- A code point is read back from what it is written as, a surrogate too. -/
private theorem literalPoints?_quotePoint {q : Char}
    (quoted : q = '"' ∨ q = '\'') (p : CodePoint) (rest : List CodePoint) :
    literalPoints? (quotePoint q p ++ rest) =
      (literalPoints? rest).map (p :: ·) := by
  unfold quotePoint
  cases scalar : p.toChar? with
  | none =>
      have unit : pointUnit? p rest = some (some p, 0) := by rw [pointUnit?, scalar]
      rw [List.singleton_append, literalPoints?_cons unit]
      rfl
  | some c =>
      obtain rfl := CodePoint.toChar?_eq_some_iff.1 scalar
      dsimp only
      rcases quoteChar_cases quoted c with
        ⟨shape, escape, -, -⟩ | ⟨d, shape, notU, notX, inLine, rfl⟩ | ⟨shape, small⟩
      · have unit : pointUnit? (.ofChar c) rest = some (some (.ofChar c), 0) := by
          simp [pointUnit?, CodePoint.toChar?_ofChar, unit?, escape]
        rw [shape, toPoints, List.map_singleton, List.singleton_append,
          literalPoints?_cons unit]
        rfl
      · have unit : pointUnit? (.ofChar '\\') (.ofChar d :: rest) =
            some (some (.ofChar (escaped d)), 1) := by
          simp [pointUnit?_ofChar_ofChar, unit?, notU]
        rw [shape, toPoints, List.map_cons, List.map_singleton, List.cons_append,
          List.singleton_append, literalPoints?_cons unit]
        rfl
      · have notBrace :=
          (hexChar_plain (Nat.mod_lt (c.toNat / 4096) (by decide : 0 < 16))).2.2.2.2
        have unit : pointUnit? (.ofChar '\\')
            (.ofChar 'u' :: (toPoints (hex4 c.toNat) ++ rest)) =
              some (some (.ofChar c), 5) := by
          rw [pointUnit?_ofChar_ofChar, List.map_append, map_seen_toPoints,
            unit?_escape,
            if_neg (fun brace => notBrace (Option.some.inj brace.2)), if_pos rfl]
          have four : (hex4 c.toNat ++ rest.map CodePoint.seen).take 4 =
            hex4 c.toNat := rfl
          rw [if_pos (by simp [hex4]), four, hexPoint?_hex4 small]
          rfl
        rw [shape, toPoints, List.map_cons, List.map_cons, ← toPoints,
          List.cons_append, List.cons_append, literalPoints?_cons unit]
        rfl

private theorem literalPoints?_flatMap {q : Char} (quoted : q = '"' ∨ q = '\'')
    (value : List CodePoint) :
    literalPoints? (value.flatMap (quotePoint q)) = some value := by
  induction value with
  | nil => rw [List.flatMap_nil, literalPoints?]
  | cons p value ih =>
      rw [List.flatMap_cons, literalPoints?_quotePoint quoted, ih]
      rfl

/-- A written literal is read back as its value, if that is one. -/
theorem decodePoints_quotePoints (value : List CodePoint) (quoteText : Text) :
    decodePoints (literalQuote quoteText) (quotePoints value quoteText).tail =
      match joinPairs? value with
      | some text => .ok text
      | none => .error .malformedEscape := by
  have quoted := literalQuote_cases quoteText
  have tail : (quotePoints value quoteText).tail =
      value.flatMap (quotePoint (literalQuote quoteText)) ++
        [.ofChar (literalQuote quoteText)] := rfl
  have notBacktick : literalQuote quoteText ≠ '\x60' := by
    rcases quoted with q | q <;> rw [q] <;> decide
  have read : (literalPoints? (quotePoints value quoteText).tail.dropLast).bind
      joinPairs? = joinPairs? value := by
    rw [tail, List.dropLast_concat, literalPoints?_flatMap quoted, Option.bind_some]
  rw [decodePoints, if_neg (fun h => notBacktick h.1)]
  cases joined : joinPairs? value with
  | none => simp only [read, joined]
  | some text => simp only [read, joined]

theorem quotePoints_toPoints (value quoteText : Text) :
    quotePoints (toPoints value) quoteText = toPoints (quote value quoteText) := by
  have body (q : Char) : (toPoints value).flatMap (quotePoint q) =
      toPoints (value.flatMap (quoteChar q)) := by
    rw [toPoints, toPoints, List.flatMap_map, List.map_flatMap]
    exact List.flatMap_congr fun c _ => by
      rw [quotePoint, CodePoint.toChar?_ofChar]; rfl
  rw [quotePoints, quote, body]
  simp [toPoints]

/-- Seen from outside, a literal with surrogates is one of replacement
characters. -/
theorem map_seen_quotePoints (value : List CodePoint) (quoteText : Text) :
    (quotePoints value quoteText).map CodePoint.seen =
      quote (value.map CodePoint.seen) quoteText := by
  have quoted := literalQuote_cases quoteText
  have body (p : CodePoint) :
      (quotePoint (literalQuote quoteText) p).map CodePoint.seen =
        quoteChar (literalQuote quoteText) p.seen := by
    cases scalar : p.toChar? with
    | none =>
        have seen : p.seen = '\uFFFD' := by
          rw [CodePoint.seen, scalar, Option.getD_none]
        rw [quotePoint, scalar, List.map_singleton, seen]
        rcases quoted with q | q <;> rw [q] <;> rfl
    | some c => rw [quotePoint, CodePoint.seen, scalar, Option.getD_some,
        map_seen_toPoints]
  rw [quotePoints, quote, List.map_append, List.map_cons, List.map_flatMap,
    List.flatMap_map]
  simp [body, CodePoint.seen_ofChar]

/-- A written literal is read back as its value. -/
theorem decode_quote (value quoteText : Text) :
    decode (literalQuote quoteText) (quote value quoteText).tail = .ok value := by
  have tail : toPoints (quote value quoteText).tail =
      (quotePoints (toPoints value) quoteText).tail := by
    rw [quotePoints_toPoints, toPoints, List.map_tail]
    rfl
  rw [decode, tail, decodePoints_quotePoints, joinPairs?_toPoints]

end Showcase.Registry

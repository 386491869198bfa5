import Mathlib.Data.List.Forall2
import Mathlib.Data.Nat.Digits.Defs
import Showcase.Proofs.Registry.LineEnds
import Showcase.Registry.Edit

/-!
# The grammar of literals

The body of a literal is a row of pieces, each of which stands for a code point
or for nothing (`Spells`), and its code points have to form whole characters
(`Paired`).  A literal has a value if and only if its body is of this form
(`literalValue_iff`).
-/

namespace Showcase

/-! ## What a literal is -/

/-- The value of a hexadecimal digit, in lower or upper case. -/
def IsHexDigit (c : Char) (value : Nat) : Prop :=
  "0123456789abcdef".toList[value]? = some c ∨
    "0123456789ABCDEF".toList[value]? = some c

/-- Hexadecimal digits, at least one, and the number that they are written for. -/
def NamesNumber (digits : Text) (n : Nat) : Prop :=
  digits ≠ [] ∧ ∃ values, List.Forall₂ IsHexDigit digits values ∧
    n = Nat.ofDigits 16 values.reverse

/-- No surrogate is without its partner: a low one stands behind each high one,
and a high one before each low one. -/
def Paired (points : List CodePoint) : Prop :=
  ∀ front p back, points = front ++ p :: back →
    (p.isHigh = true → ∃ q ∈ back.head?, q.isLow = true) ∧
      (p.isLow = true → ∃ q ∈ front.getLast?, q.isHigh = true)

/-- The characters of some code points, two surrogates together being one. -/
inductive Merged : List CodePoint → Text → Prop where
  | nil : Merged [] []
  | single (c : Char) {points : List CodePoint} {text : Text} (later :
      Merged points text) :
      Merged (.ofChar c :: points) (c :: text)
  | pair {high low : CodePoint} {c : Char} {points : List CodePoint} {text : Text}
      (isHigh : high.isHigh = true) (isLow : low.isLow = true)
      (number : c.toNat = 0x10000 + (high.val - 0xD800) * 0x400 +
        (low.val - 0xDC00))
      (later : Merged points text) : Merged (high :: low :: points) (c :: text)

namespace Registry

/-- The letters that a backslash turns into control characters. -/
def controlEscapes : List (Char × Char) :=
  [('n', '\n'), ('t', '\t'), ('r', '\r'), ('b', '\x08'), ('f', '\x0c'),
    ('v', '\x0b'), ('0', '\x00')]

/-- A piece of a literal's body, and the code point that it stands for. -/
inductive LiteralPiece : Text → Option CodePoint → Prop where
  | plain {c : Char} (notEscape : c ≠ '\\') : LiteralPiece [c] (some (.ofChar c))
  | braced {digits : Text} {p : CodePoint} (named : NamesNumber digits p.val) :
      LiteralPiece ('\\' :: 'u' :: '{' :: (digits ++ ['}'])) (some p)
  | four {digits : Text} {p : CodePoint} (length : digits.length = 4)
      (named : NamesNumber digits p.val) :
      LiteralPiece ('\\' :: 'u' :: digits) (some p)
  | two {digits : Text} {p : CodePoint} (length : digits.length = 2)
      (named : NamesNumber digits p.val) :
      LiteralPiece ('\\' :: 'x' :: digits) (some p)
  | lineBreak : LiteralPiece ['\\', '\n'] none
  | control {c d : Char} (listed : (c, d) ∈ controlEscapes) :
      LiteralPiece ['\\', c] (some (.ofChar d))
  | itself {c : Char} (notListed : ∀ d, (c, d) ∉ controlEscapes) (notNumber : c ≠
      'u' ∧ c ≠ 'x')
      (inLine : c ≠ '\n') : LiteralPiece ['\\', c] (some (.ofChar c))

/-- A body that is a row of pieces, and the code points that these stand for. -/
def Spells (body : Text) (points : List CodePoint) : Prop :=
  ∃ pieces : List (Text × Option CodePoint),
    (∀ piece ∈ pieces, LiteralPiece piece.1 piece.2) ∧
    body = pieces.flatMap Prod.fst ∧ points = pieces.filterMap Prod.snd

end Registry

/-! ## Digits -/

private theorem hexDigit?_eq_some_iff {c : Char} {value : Nat} :
    hexDigit? c = some value ↔ IsHexDigit c value := by
  constructor
  · intro h
    have all : ∀ n < 128, ∀ value ∈ hexDigit? (Char.ofNat n),
        IsHexDigit (Char.ofNat n) value := by
      unfold IsHexDigit
      decide +kernel
    have ascii : c.toNat < 128 := by
      refine Classical.byContradiction fun large => ?_
      have above (d : Char) (low : d.toNat < 128) : ¬c ≤ d := by
        intro le
        have le : c.toNat ≤ d.toNat := le
        omega
      simp [hexDigit?, above] at h
    rw [← Char.ofNat_toNat c] at h ⊢
    exact all c.toNat ascii value h
  · intro h
    have all : ∀ v : Fin 16, hexDigit? ("0123456789abcdef".toList[v]) = some v.val ∧
        hexDigit? ("0123456789ABCDEF".toList[v]) = some v.val := by decide
    have small : value < 16 := by
      rcases h with h | h <;> exact (List.getElem?_eq_some_iff.1 h).1
    obtain ⟨lower, upper⟩ := all ⟨value, small⟩
    rcases h with h | h
    · obtain ⟨_, rfl⟩ := List.getElem?_eq_some_iff.1 h
      exact lower
    · obtain ⟨_, rfl⟩ := List.getElem?_eq_some_iff.1 h
      exact upper

private theorem mapM_eq_some_iff {α β : Type} {f : α → Option β} {xs : List α}
    {ys : List β} :
    xs.mapM f = some ys ↔ List.Forall₂ (fun x y => f x = some y) xs ys := by
  induction xs generalizing ys with
  | nil => simp [eq_comm]
  | cons x xs ih =>
      rw [List.mapM_cons, List.forall₂_cons_left_iff]
      constructor
      · intro h
        obtain ⟨y, here, rest⟩ := Option.bind_eq_some_iff.1 h
        obtain ⟨ys, later, made⟩ := Option.bind_eq_some_iff.1 rest
        cases made
        exact ⟨y, ys, here, ih.1 later, rfl⟩
      · rintro ⟨y, ys, here, later, rfl⟩
        rw [here, ih.2 later]
        rfl

private theorem hexNumber?_eq_some_iff {digits : Text} {n : Nat} :
    hexNumber? digits = some n ↔ NamesNumber digits n := by
  have number (values : List Nat) :
      values.foldl (fun n d => 16 * n + d) 0 = Nat.ofDigits 16 values.reverse := by
    rw [Nat.ofDigits_eq_foldr, List.foldr_reverse]
    simp only [Nat.cast_id, Nat.add_comm]
  rw [hexNumber?, NamesNumber]
  cases digits with
  | nil => simp
  | cons c digits =>
      rw [List.isEmpty_cons, if_neg (by simp), Option.map_eq_some_iff]
      simp only [mapM_eq_some_iff, hexDigit?_eq_some_iff, number, ne_eq,
        reduceCtorEq, not_false_eq_true, true_and, @eq_comm _ n]

private theorem hexPoint?_eq_some_iff {digits : Text} {p : CodePoint} :
    hexPoint? digits = some p ↔ NamesNumber digits p.val := by
  have point (n : Nat) : CodePoint.ofNat? n = some p ↔ n = p.val := by
    unfold CodePoint.ofNat?
    split
    next small =>
      rw [Option.some.injEq]
      constructor
      · rintro rfl
        rfl
      · rintro rfl
        rfl
    next large =>
      have := p.val_lt
      simp only [reduceCtorEq, false_iff]
      omega
  rw [hexPoint?, Option.bind_eq_some_iff]
  simp only [point, hexNumber?_eq_some_iff, exists_eq_right]

private theorem NamesNumber.not_mem {digits : Text} {n : Nat}
    (h : NamesNumber digits n) {c : Char} (notDigit : hexDigit? c = none) :
    c ∉ digits := by
  obtain ⟨-, values, all, -⟩ := h
  intro mem
  have some := Registry.isSome_of_mapM (f := hexDigit?)
    (mapM_eq_some_iff.2 (all.imp fun _ _ => hexDigit?_eq_some_iff.2)) mem
  simp [notDigit] at some

/-! ## Surrogates -/

section Surrogates

variable {p q : CodePoint} {points : List CodePoint} {text : Text}

private theorem CodePoint.isLow_of_isHigh (h : p.isHigh = true) :
    p.isLow = false := by
  simp only [isHigh, Bool.and_eq_true, decide_eq_true_eq] at h
  simp only [isLow, Bool.and_eq_false_iff, decide_eq_false_iff_not]
  omega

private theorem CodePoint.isHigh_or_isLow :
    p.isSurrogate = true ↔ p.isHigh = true ∨ p.isLow = true := by
  simp only [isSurrogate, isHigh, isLow, Bool.and_eq_true, decide_eq_true_eq]
  omega

private theorem CodePoint.ofChar_notSurrogate (c : Char) :
    (ofChar c).isHigh = false ∧ (ofChar c).isLow = false := by
  have plain := isSurrogate_ofChar c
  constructor
  · refine Bool.eq_false_iff.2 fun high => ?_
    simp [isHigh_or_isLow.2 (.inl high)] at plain
  · refine Bool.eq_false_iff.2 fun low => ?_
    simp [isHigh_or_isLow.2 (.inr low)] at plain

private theorem CodePoint.exists_ofChar (notHigh : p.isHigh = false)
    (notLow : p.isLow = false) :
    ∃ c, p = .ofChar c := by
  have plain : p.isSurrogate = false := by
    refine Bool.eq_false_iff.2 fun surrogate => ?_
    simp [isHigh_or_isLow, notHigh, notLow] at surrogate
  exact ⟨Char.ofNat p.val, toChar?_eq_some_iff.1 (by rw [toChar?, plain]; rfl)⟩

private theorem CodePoint.toNat_joined (isHigh : p.isHigh = true)
    (isLow : q.isLow = true) :
    (joined p q).toNat = 0x10000 + (p.val - 0xD800) * 0x400 + (q.val - 0xDC00) := by
  simp only [CodePoint.isHigh, CodePoint.isLow, Bool.and_eq_true,
    decide_eq_true_eq] at isHigh isLow
  have valid :
      (0x10000 + (p.val - 0xD800) * 0x400 + (q.val - 0xDC00)).isValidChar := by
    unfold Nat.isValidChar
    omega
  rw [joined, Char.ofNat, dif_pos valid]
  rfl

private theorem merged_of_joinPairs? (h : joinPairs? points = some text) :
    Merged points text := by
  fun_induction joinPairs? points generalizing text with
  | case1 =>
      cases h
      exact .nil
  | case2 p =>
      obtain ⟨c, single, rfl⟩ := Option.map_eq_some_iff.1 h
      rw [CodePoint.toChar?_eq_some_iff.1 single]
      exact .single c .nil
  | case3 p q rest both ih =>
      obtain ⟨later, read, rfl⟩ := Option.map_eq_some_iff.1 h
      rw [Bool.and_eq_true] at both
      exact .pair both.1 both.2 (CodePoint.toNat_joined both.1 both.2) (ih read)
  | case4 => simp at h
  | case5 p q rest _ c single ih =>
      obtain ⟨later, read, rfl⟩ := Option.map_eq_some_iff.1 h
      rw [CodePoint.toChar?_eq_some_iff.1 single]
      exact .single c (ih read)

private theorem joinPairs?_eq_some_iff :
    joinPairs? points = some text ↔ Merged points text := by
  refine ⟨merged_of_joinPairs?, fun h => ?_⟩
  induction h with
  | nil => rfl
  | single c _ ih => rw [joinPairs?_ofChar, ih, Option.map_some]
  | @pair high low c points text isHigh isLow number _ ih =>
      have same : CodePoint.joined high low = c := by
        rw [← Char.ofNat_toNat (CodePoint.joined high low),
          CodePoint.toNat_joined isHigh isLow, ← number, Char.ofNat_toNat]
      rw [joinPairs?, isHigh, isLow, ih]
      simp [same]

theorem Merged.paired (h : Merged points text) : Paired points := by
  induction h with
  | nil => simp [Paired]
  | @single c points _ _ ih =>
      intro front p back split
      obtain ⟨notHigh, notLow⟩ := CodePoint.ofChar_notSurrogate c
      cases front with
      | nil =>
          obtain ⟨rfl, -⟩ := List.cons.inj split
          simp [notHigh, notLow]
      | cons q front =>
          obtain ⟨rfl, rest⟩ := List.cons.inj split
          obtain ⟨high, low⟩ := ih front p back rest
          refine ⟨high, fun isLow => ?_⟩
          obtain ⟨q, last, isHigh⟩ := low isLow
          exact ⟨q, by rw [List.getLast?_cons, last]; rfl, isHigh⟩
  | @pair high low c points text isHigh isLow _ _ ih =>
      intro front p back split
      match front with
      | [] =>
          obtain ⟨rfl, rfl⟩ := List.cons.inj split
          exact ⟨fun _ => ⟨low, rfl, isLow⟩, fun other => by
            simp [CodePoint.isLow_of_isHigh isHigh] at other⟩
      | [q] =>
          obtain ⟨rfl, rest⟩ := List.cons.inj split
          obtain ⟨rfl, rfl⟩ := List.cons.inj rest
          exact ⟨fun other => by simp [CodePoint.isLow_of_isHigh other] at isLow,
            fun _ =>
            ⟨high, rfl, isHigh⟩⟩
      | q :: q' :: front =>
          obtain ⟨rfl, behind⟩ := List.cons.inj split
          obtain ⟨rfl, rest⟩ := List.cons.inj behind
          obtain ⟨high, low⟩ := ih front p back rest
          refine ⟨high, fun isLow => ?_⟩
          obtain ⟨q, last, isHigh⟩ := low isLow
          exact ⟨q, by rw [List.getLast?_cons, List.getLast?_cons, last]; rfl,
            isHigh⟩

/-- Behind code points the last of which is no high surrogate, the pairs are as
before. -/
theorem Paired.of_append (front : List CodePoint) (h : Paired (front ++ points))
    (notHigh : ∀ p ∈ front.getLast?, p.isHigh = false) : Paired points := by
  rintro before q back rfl
  obtain ⟨high, low⟩ := h (front ++ before) q back (List.append_assoc ..).symm
  refine ⟨high, fun isLow => ?_⟩
  obtain ⟨r, last, isHigh⟩ := low isLow
  rw [List.getLast?_append, Option.mem_def, Option.or_eq_some_iff] at last
  rcases last with last | ⟨-, last⟩
  · exact ⟨r, last, isHigh⟩
  · simp [notHigh r last] at isHigh

private theorem Paired.exists_merged (h : Paired points) :
    ∃ text, Merged points text := by
  induction len : points.length
    using Nat.strong_induction_on generalizing points with
  | _ n ih =>
    subst len
    cases points with
    | nil => exact ⟨[], .nil⟩
    | cons p points =>
        obtain ⟨high, low⟩ := h [] p points rfl
        have notLow : p.isLow = false := Bool.eq_false_iff.2 fun isLow => by
          simpa using low isLow
        cases isHigh : p.isHigh with
        | false =>
            obtain ⟨c, rfl⟩ := CodePoint.exists_ofChar isHigh notLow
            have paired : Paired points :=
              .of_append [.ofChar c] h (by simpa using isHigh)
            obtain ⟨text, merged⟩ := ih _ (by simp) paired rfl
            exact ⟨c :: text, .single c merged⟩
        | true =>
            obtain ⟨q, next, isLow⟩ := high isHigh
            obtain ⟨rest, rfl⟩ := List.head?_eq_some_iff.1 next
            have notHigh : q.isHigh = false := Bool.eq_false_iff.2 fun other => by
              simp [CodePoint.isLow_of_isHigh other] at isLow
            have paired : Paired rest :=
              .of_append [p, q] h (by simpa using notHigh)
            obtain ⟨text, merged⟩ :=
              ih _ (by simp only [List.length_cons]; omega) paired rfl
            exact ⟨_,
              .pair isHigh isLow (CodePoint.toNat_joined isHigh isLow) merged⟩

end Surrogates

/-! ## Bodies -/

namespace Registry

section Bodies

variable {c : Char} {u rest body later : Text} {point? : Option CodePoint} {n : Nat}
  {points : List CodePoint}

private theorem escaped_eq (c : Char) : (c, escaped c) ∈ controlEscapes ∨
    escaped c = c ∧ ∀ d, (c, d) ∉ controlEscapes := by
  unfold escaped
  split <;> simp_all [controlEscapes]

private theorem escaped_of_mem {d : Char} (h : (c, d) ∈ controlEscapes) :
    escaped c = d ∧ c ≠ 'u' ∧ c ≠ 'x' ∧ c ≠ '\n' := by
  have all : ∀ pair ∈ controlEscapes,
      escaped pair.1 = pair.2 ∧ pair.1 ≠ 'u' ∧ pair.1 ≠ 'x' ∧ pair.1 ≠ '\n' := by
        decide
  exact all _ h

private theorem exists_digits {width : Nat} {digits : Text} {p : CodePoint}
    (h : (if width ≤ digits.length then hexPoint? (digits.take width) else none) =
      some p) :
    ∃ named later, digits = named ++ later ∧ named.length = width ∧
      NamesNumber named p.val := by
  split at h
  next enough =>
    exact ⟨digits.take width, digits.drop width, (List.take_append_drop ..).symm,
      List.length_take_of_le enough, hexPoint?_eq_some_iff.1 h⟩
  next => simp at h

private theorem exists_piece_of_unit? (h : unit? c rest = some (point?, n)) :
    ∃ u later, rest = u ++ later ∧ u.length = n ∧ LiteralPiece (c :: u) point? := by
  by_cases plain : c ≠ '\\'
  · rw [unit?.eq_def, if_pos plain] at h
    cases h
    exact ⟨[], rest, rfl, rfl, .plain plain⟩
  obtain rfl : c = '\\' := by simpa using plain
  cases rest with
  | nil => simp [unit?] at h
  | cons escape digits =>
      rw [unit?_escape] at h
      split at h
      next braced =>
        obtain ⟨rfl, brace⟩ := braced
        obtain ⟨inside, rfl⟩ := List.head?_eq_some_iff.1 brace
        obtain ⟨p, read, same⟩ := Option.map_eq_some_iff.1 h
        rw [List.tail_cons] at read same
        obtain ⟨named, later, rfl, -, -, number, run⟩ := exists_of_braces read
        rw [run] at same
        cases same
        exact ⟨'u' :: '{' :: (named ++ ['}']), later, by simp, by simp,
          .braced (hexPoint?_eq_some_iff.1 number)⟩
      split at h
      next _ isU =>
        subst isU
        obtain ⟨p, read, same⟩ := Option.map_eq_some_iff.1 h
        cases same
        obtain ⟨named, later, rfl, length, number⟩ := exists_digits read
        exact ⟨'u' :: named, later, rfl, by rw [List.length_cons, length],
          .four length number⟩
      split at h
      next _ _ isX =>
        subst isX
        obtain ⟨p, read, same⟩ := Option.map_eq_some_iff.1 h
        cases same
        obtain ⟨named, later, rfl, length, number⟩ := exists_digits read
        exact ⟨'x' :: named, later, rfl, by rw [List.length_cons, length],
          .two length number⟩
      split at h
      next _ _ _ broken =>
        subst broken
        cases h
        exact ⟨['\n'], digits, rfl, rfl, .lineBreak⟩
      next _ notU notX inLine =>
        cases h
        refine ⟨[escape], digits, rfl, rfl, ?_⟩
        rcases escaped_eq escape with listed | ⟨itself, notListed⟩
        · exact .control listed
        · rw [itself]
          exact .itself notListed ⟨notU, notX⟩ inLine

/-- A piece is taken whatever stands behind it. -/
private theorem LiteralPiece.unit?_eq (h : LiteralPiece (c :: u) point?)
    (later : Text) :
    unit? c (u ++ later) = some (point?, u.length) := by
  have notBrace {digits : Text} {n : Nat} (named : NamesNumber digits n) :
      (digits ++ later).head? ≠ some '{' := by
    obtain ⟨d, digits, rfl⟩ := List.exists_cons_of_ne_nil named.1
    intro brace
    obtain rfl : d = '{' := Option.some.inj brace
    exact named.not_mem (by decide) (List.mem_cons_self)
  generalize whole : c :: u = piece at h
  cases h with
  | plain notEscape =>
      obtain ⟨rfl, rfl⟩ := List.cons.inj whole
      rw [unit?.eq_def, if_pos notEscape]
      rfl
  | @braced digits p named =>
      obtain ⟨rfl, rfl⟩ := List.cons.inj whole
      have run : (digits ++ '}' :: later).takeWhile (· ≠ '}') = digits :=
        takeWhile_append_of_ends (fun d mem => by
          simpa using fun same : d = '}' =>
            named.not_mem (by decide) (same ▸ mem)) (by simp)
      have closed : digits.length < (digits ++ '}' :: later).length := by simp
      have shape : 'u' :: '{' :: (digits ++ ['}']) ++ later = 'u' :: '{' ::
          (digits ++ '}' :: later) := by
        simp
      rw [shape, unit?_escape, if_pos ⟨rfl, rfl⟩]
      simp only [List.tail_cons, run, if_pos closed, hexPoint?_eq_some_iff.2 named]
      simp
  | @four digits p length named =>
      obtain ⟨rfl, rfl⟩ := List.cons.inj whole
      rw [List.cons_append, unit?_escape, if_neg fun both =>
        notBrace named both.2, if_pos rfl,
        if_pos (by rw [List.length_append]; omega), List.take_left' length,
        hexPoint?_eq_some_iff.2 named, List.length_cons, length]
      rfl
  | @two digits p length named =>
      obtain ⟨rfl, rfl⟩ := List.cons.inj whole
      rw [List.cons_append, unit?_escape, if_neg (by simp), if_neg (by decide),
        if_pos rfl,
        if_pos (by rw [List.length_append]; omega), List.take_left' length,
        hexPoint?_eq_some_iff.2 named, List.length_cons, length]
      rfl
  | lineBreak =>
      obtain ⟨rfl, rfl⟩ := List.cons.inj whole
      rfl
  | @control escape d listed =>
      obtain ⟨rfl, rfl⟩ := List.cons.inj whole
      obtain ⟨same, notU, notX, inLine⟩ := escaped_of_mem listed
      rw [List.singleton_append, unit?_escape, if_neg fun both => notU both.1,
        if_neg notU, if_neg notX, if_neg inLine, same]
      rfl
  | @itself escape notListed notNumber inLine =>
      obtain ⟨rfl, rfl⟩ := List.cons.inj whole
      have same : escaped escape = escape := by
        rcases escaped_eq escape with listed | ⟨itself, -⟩
        · exact absurd listed (notListed _)
        · exact itself
      rw [List.singleton_append, unit?_escape, if_neg fun both =>
        notNumber.1 both.1,
        if_neg notNumber.1, if_neg notNumber.2, if_neg inLine, same]
      rfl

theorem LiteralPiece.ne_nil (h : LiteralPiece u point?) : u ≠ [] := by
  cases h <;> simp

theorem Spells.cons (piece : LiteralPiece u point?) (h : Spells body points) :
    Spells (u ++ body) (point?.toList ++ points) := by
  obtain ⟨pieces, all, rfl, rfl⟩ := h
  refine ⟨(u, point?) :: pieces, ?_, rfl, ?_⟩
  · intro other mem
    rcases List.mem_cons.1 mem with rfl | mem
    · exact piece
    · exact all other mem
  · cases point? <;> simp

private theorem bodyPoints?_eq_some_iff :
    bodyPoints? body = some points ↔ Spells body points := by
  constructor
  · intro h
    fun_induction bodyPoints? body generalizing points with
    | case1 =>
        cases h
        exact ⟨[], by simp, rfl, rfl⟩
    | case2 => simp at h
    | case3 first rest point? n unit ih =>
        obtain ⟨later, read, rfl⟩ := Option.map_eq_some_iff.1 h
        obtain ⟨u, behind, rfl, rfl, piece⟩ := exists_piece_of_unit? unit
        rw [List.drop_left] at read ih
        exact (ih read).cons piece
  · rintro ⟨pieces, all, rfl, rfl⟩
    induction pieces with
    | nil => rw [List.flatMap_nil, bodyPoints?]; rfl
    | cons piece pieces ih =>
        obtain ⟨u, point?⟩ := piece
        have isPiece : LiteralPiece u point? := all (u, point?) (by simp)
        obtain ⟨c, u, rfl⟩ := List.exists_cons_of_ne_nil isPiece.ne_nil
        rw [List.flatMap_cons, List.cons_append,
          bodyPoints?_cons (isPiece.unit?_eq _), List.drop_left,
          ih fun other mem => all other (by simp [mem])]
        cases point? <;> rfl

private theorem hasInterpolation_iff {text : Text} :
    hasInterpolation text = true ↔ ['$', '{'] <:+: text := by
  fun_induction hasInterpolation text with
  | case1 rest => simpa using ⟨[], rest, rfl⟩
  | case2 c rest notOpen ih =>
      rw [ih, List.infix_cons_iff]
      refine ⟨.inr, fun h => h.resolve_left fun starts => ?_⟩
      obtain ⟨rfl, brace⟩ := List.cons_prefix_cons.1 starts
      obtain ⟨later, rfl⟩ := brace
      exact notOpen later rfl rfl
  | case3 => simp

end Bodies

/-- A literal has a value if and only if its body is a row of pieces the code
points of which form whole characters; the value is these characters.  Every
other literal is a storage failure. -/
theorem literalValue_iff (q closer : Char) (body : Text)
    (noTemplate : ¬(q = '\x60' ∧ ['$', '{'] <:+: q :: body ++ [closer])) :
    ((∃ value, literalValue (q :: body ++ [closer]) = .ok value) ↔
        ∃ points, Spells body points ∧ Paired points) ∧
      (∀ value, literalValue (q :: body ++ [closer]) = .ok value ↔
        ∃ points, Spells body points ∧ Merged points value) ∧
      ((¬∃ points, Spells body points ∧ Paired points) →
        ∃ failure, literalValue (q :: body ++ [closer]) = .error failure ∧
          failure.category? = some .storage) := by
  have notOpen : ¬(q = '\x60' ∧ hasInterpolation (body ++ [closer]) = true) := by
    rintro ⟨isBacktick, inside⟩
    exact noTemplate ⟨isBacktick,
      (hasInterpolation_iff.1 inside).trans (List.suffix_cons ..).isInfix⟩
  have read : literalValue (q :: body ++ [closer]) =
      ((bodyPoints? body).bind joinPairs?).elim
        (.error (.registry .malformedEscape)) .ok := by
    rw [List.cons_append, literalValue, decode_eq, if_neg notOpen,
      List.dropLast_concat]
    cases (bodyPoints? body).bind joinPairs? <;> rfl
  have value (value : Text) : (bodyPoints? body).bind joinPairs? = some value ↔
      ∃ points, Spells body points ∧ Merged points value := by
    simp only [Option.bind_eq_some_iff, bodyPoints?_eq_some_iff,
      joinPairs?_eq_some_iff]
  have whole : (∃ value, (bodyPoints? body).bind joinPairs? = some value) ↔
      ∃ points, Spells body points ∧ Paired points := by
    simp only [value]
    constructor
    · rintro ⟨value, points, spells, merged⟩
      exact ⟨points, spells, merged.paired⟩
    · rintro ⟨points, spells, paired⟩
      obtain ⟨value, merged⟩ := paired.exists_merged
      exact ⟨value, points, spells, merged⟩
  rw [read, ← whole]
  simp only [← value]
  cases (bodyPoints? body).bind joinPairs? with
  | some value => simp
  | none => exact ⟨by simp, by simp, fun _ => ⟨_, rfl, rfl⟩⟩

/-- A surrogate pair, digits of all kinds, a line continuation and an escape
that stands for itself. -/
def escapedSmileys : Text := "\\ud83d\\ude00\\x41\\\n\\u\x7b1F600\x7d\\q".toList

/-- The pair is one character, and the high surrogate alone is none. -/
theorem literalValue_iff_escapedSmileys :
    ¬('"' = '\x60' ∧ ['$', '{'] <:+: '"' :: escapedSmileys ++ ['"']) ∧
      literalValue ('"' :: escapedSmileys ++ ['"']) = .ok "😀A😀q".toList ∧
      (∃ points, Spells escapedSmileys points ∧ Merged points "😀A😀q".toList) ∧
      ¬∃ points, Spells (escapedSmileys.take 6) points ∧ Paired points := by
  have read : literalValue ('"' :: escapedSmileys ++ ['"']) =
    .ok "😀A😀q".toList := by decide +kernel
  have broken : literalValue ('"' :: escapedSmileys.take 6 ++ ['"']) =
      .error (.registry .malformedEscape) := by decide +kernel
  obtain ⟨-, value, -⟩ := literalValue_iff '"' '"' escapedSmileys (by simp)
  obtain ⟨readable, -, -⟩ :=
    literalValue_iff '"' '"' (escapedSmileys.take 6) (by simp)
  refine ⟨by simp, read, (value _).1 read, fun spells => ?_⟩
  obtain ⟨value, read'⟩ := readable.2 spells
  exact absurd (broken.symm.trans read') (by simp)

end Registry

end Showcase

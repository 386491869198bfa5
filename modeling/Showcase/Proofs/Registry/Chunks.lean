import Showcase.Proofs.Registry.Walk
import Showcase.Registry.Record

/-!
# Chunks

The commas outside brackets cut a balanced token list into chunks.  The fields of
a record and the elements of the list are read chunk by chunk (`fieldsFrom_eq`,
`elementsFrom_eq`).
-/

namespace Showcase.Registry

/-- Some tokens with the comma behind them. -/
structure Chunk where
  tokens : List Token
  comma? : Option Token
  deriving DecidableEq, Repr

def Chunk.all (chunk : Chunk) : List Token := chunk.tokens ++ chunk.comma?.toList

def join (chunks : List Chunk) : List Token := chunks.flatMap Chunk.all

@[simp] theorem join_nil : join [] = [] := rfl

@[simp] theorem join_cons (chunk : Chunk) (chunks : List Chunk) :
    join (chunk :: chunks) = chunk.all ++ join chunks := rfl

@[simp] theorem join_append (chunks chunks' : List Chunk) :
    join (chunks ++ chunks') = join chunks ++ join chunks' := by
  simp [join]

/-- Balanced tokens without a comma outside their brackets. -/
def Unbroken (ts : List Token) : Prop := Balanced ts ∧ seek [','] 0 ts = []

/-- Every chunk is unbroken, and only the last may have no comma. -/
inductive Cut : List Chunk → Prop where
  | nil : Cut []
  | last {ts : List Token} (unbroken : Unbroken ts) (some : ts ≠ []) :
      Cut [⟨ts, none⟩]
  | more {ts : List Token} {comma : Token} {chunks : List Chunk}
      (unbroken : Unbroken ts)
      (isComma : comma.isPunct ',' = true) (later : Cut chunks) :
      Cut (⟨ts, some comma⟩ :: chunks)

theorem Token.isPunctIn_comma (t : Token) : t.isPunctIn [','] = t.isPunct ',' := by
  simp only [isPunctIn, isPunct, List.contains_cons, List.contains_nil,
    Bool.or_false]

private theorem Token.plain_of_isPunct {t : Token} {c : Char}
    (h : t.isPunct c = true) (opening : closerOf? c = none)
    (closing : isCloser c = false) :
    t.closer? = none ∧ t.closes = false := by
  simp only [isPunct, Bool.and_eq_true, beq_iff_eq] at h
  obtain ⟨punct, rfl⟩ := h
  simp [closer?, closes, punct, opening, closing]

theorem balanced_singleton {t : Token} (opening : t.closer? = none)
    (closing : t.closes = false) :
    Balanced [t] :=
  .plain opening closing .nil

theorem balanced_comma {comma : Token} (h : comma.isPunct ',' = true) :
    Balanced [comma] := by
  obtain ⟨opening, closing⟩ := Token.plain_of_isPunct h rfl rfl
  exact balanced_singleton opening closing

theorem Cut.balanced {chunks : List Chunk} (h : Cut chunks) :
    Balanced (join chunks) := by
  induction h with
  | nil => exact .nil
  | last unbroken _ => simpa [Chunk.all] using unbroken.1
  | more unbroken isComma _ ih =>
      exact (unbroken.1.append (balanced_comma isComma)).append ih

/-! ## Cutting at the commas -/

def chunksOf (body : List Token) : List Chunk :=
  match seek [','] 0 body with
  | [] => if body = [] then [] else [⟨body, none⟩]
  | comma :: later =>
      if later.length < body.length then
        ⟨body.take (body.length - (later.length + 1)), some comma⟩ :: chunksOf later
      else []
termination_by body.length

theorem chunksOf_of_seek_eq_nil {body : List Token} (h : seek [','] 0 body = [])
    (some : body ≠ []) :
    chunksOf body = [⟨body, none⟩] := by
  rw [chunksOf.eq_def, h]
  simp [some]

theorem chunksOf_of_seek_eq_cons {body later : List Token} {comma : Token}
    (h : seek [','] 0 body = comma :: later) :
    chunksOf body =
      ⟨body.take (body.length - (later.length + 1)), some comma⟩ ::
        chunksOf later := by
  have shorter := length_seek_le [','] 0 body
  rw [h, List.length_cons] at shorter
  rw [chunksOf.eq_def, h]
  simp only
  rw [if_pos (by omega)]

@[simp] theorem chunksOf_nil : chunksOf [] = [] := by
  rw [chunksOf.eq_def]
  rfl

theorem seek_comma {comma : Token} (h : comma.isPunct ',' = true)
    (ts : List Token) :
    seek [','] 0 (comma :: ts) = comma :: ts := by
  rw [seek, Token.isPunctIn_comma, if_pos h]

theorem Unbroken.seek_append {ts : List Token} (h : Unbroken ts)
    (rest : List Token) :
    seek [','] 0 (ts ++ rest) = seek [','] 0 rest :=
  seek_append_of_eq_nil (h.1.awaited_eq []) h.2 rest

theorem chunksOf_join {chunks : List Chunk} (h : Cut chunks) :
    chunksOf (join chunks) = chunks := by
  induction h with
  | nil => exact chunksOf_nil
  | last unbroken some =>
      simpa [Chunk.all] using chunksOf_of_seek_eq_nil unbroken.2 some
  | @more ts comma chunks unbroken isComma _ ih =>
      have found : seek [','] 0 (join (⟨ts, some comma⟩ :: chunks)) = comma ::
          join chunks := by
        simp only [join_cons, Chunk.all, Option.toList_some, List.append_assoc,
          List.singleton_append]
        rw [unbroken.seek_append, seek_comma isComma]
      have front : (join (⟨ts, some comma⟩ :: chunks)).take
          ((join (⟨ts, some comma⟩ :: chunks)).length -
            ((join chunks).length + 1)) = ts := by
        simp [Chunk.all]
      rw [chunksOf_of_seek_eq_cons found, front, ih]

theorem exists_of_seek_eq_cons {stops : List Char} (stack : List Char)
    {ts later : List Token} {stop : Token}
    (h : seek stops stack.length ts = stop :: later)
    (balanced : awaited stack ts = some []) :
    ∃ before, ts = before ++ stop :: later ∧ awaited stack before = some [] ∧
      seek stops stack.length before = [] ∧ stop.isPunctIn stops = true := by
  induction ts generalizing stack with
  | nil => simp [seek] at h
  | cons t ts ih =>
      obtain ⟨next, step, behind⟩ := Option.bind_eq_some_iff.1 balanced
      have go (same : ∀ us, seek stops stack.length (t :: us) =
          seek stops next.length us) :
          ∃ before, t :: ts = before ++ stop :: later ∧
            awaited stack before = some [] ∧
            seek stops stack.length before = [] ∧ stop.isPunctIn stops = true := by
        rw [same] at h
        obtain ⟨before, rfl, inside, nothing, isStop⟩ := ih next h behind
        exact ⟨t :: before, rfl, by rw [awaited, step]; exact inside,
          by rw [same, nothing], isStop⟩
      have outside (empty : stack = []) (same : t.isPunctIn stops = false →
          ∀ us, seek stops stack.length (t :: us) = seek stops next.length us) :
          ∃ before, t :: ts = before ++ stop :: later ∧
            awaited stack before = some [] ∧
            seek stops stack.length before = [] ∧ stop.isPunctIn stops = true := by
        subst empty
        cases found : t.isPunctIn stops with
        | false => exact go (same found)
        | true =>
            rw [List.length_nil, seek, if_pos found] at h
            obtain ⟨rfl, rfl⟩ := List.cons.inj h
            exact ⟨[], rfl, rfl, rfl, found⟩
      rcases Token.await_cases step with
        ⟨closer, opening, rfl⟩ | ⟨opening, closing, rfl⟩ |
        ⟨opening, closing, rfl⟩
      · cases stack with
        | nil =>
            exact outside rfl fun notStop us => by simp [seek, opening, notStop]
        | cons => exact go fun us => by simp [seek, opening]
      · cases next with
        | nil =>
            exact outside rfl fun notStop us => by simp [seek, opening, notStop]
        | cons => exact go fun us => by simp [seek, opening, closing]
      · exact go fun us => by simp [seek, opening, closing]

private theorem exists_unbroken {ts later : List Token} {comma : Token}
    (balanced : Balanced ts) (h : seek [','] 0 ts = comma :: later) :
    ∃ before, ts = before ++ comma :: later ∧ Unbroken before ∧
      comma.isPunct ',' = true ∧
      Balanced later := by
  obtain ⟨before, rfl, inside, nothing, isStop⟩ :=
    exists_of_seek_eq_cons [] h (balanced.awaited_eq [])
  rw [Token.isPunctIn_comma] at isStop
  have first := balanced_iff.2 inside
  have rest := balanced.of_append first
  rw [← List.singleton_append] at rest
  exact ⟨before, rfl, ⟨first, nothing⟩, isStop,
    rest.of_append (balanced_comma isStop)⟩

/-- Every balanced list is cut into chunks. -/
theorem Balanced.exists_cut {body : List Token} (h : Balanced body) :
    ∃ chunks, Cut chunks ∧ join chunks = body := by
  induction len : body.length using Nat.strongRecOn generalizing body with
  | _ n ih =>
    subst len
    cases found : seek [','] 0 body with
    | nil =>
        by_cases empty : body = []
        · exact ⟨[], .nil, empty.symm⟩
        · exact ⟨[⟨body, none⟩], .last ⟨h, found⟩ empty, by simp [Chunk.all]⟩
    | cons comma later =>
        obtain ⟨before, rfl, unbroken, isComma, rest⟩ := exists_unbroken h found
        obtain ⟨chunks, cut, rfl⟩ := ih later.length (by simp; omega) rest rfl
        exact ⟨⟨before, some comma⟩ :: chunks, .more unbroken isComma cut,
          by simp [Chunk.all]⟩

theorem Cut.skipTo_eq {b : Bracketed} {l r : List Token} {chunk : Chunk}
    {chunks : List Chunk} (cut : Cut (chunk :: chunks))
    (h : b.Represents (l ++ join (chunk :: chunks) ++ r)) :
    b.skipTo [','] l.length (l.length + (join (chunk :: chunks)).length) =
      l.length + chunk.tokens.length := by
  rw [Registry.skipTo_eq h]
  cases cut with
  | last unbroken _ =>
      simp only [join_cons, Chunk.all, Option.toList_none, List.append_nil,
        join_nil]
      rw [unbroken.2]
      simp
  | more unbroken isComma later =>
      simp only [join_cons, Chunk.all, Option.toList_some, List.append_assoc,
        List.singleton_append]
      rw [unbroken.seek_append, seek_comma isComma]
      simp
      omega

/-! ## Fields -/

/-- From the start of the first to the end of the last token. -/
def extent (ts : List Token) : Span :=
  ⟨(ts.head?.map Token.start).getD 0, (ts.getLast?.map Token.stop).getD 0⟩

def valueOf (name : Text) (value : List Token)
    (read : LiteralReader := Token.value) :
    Except Fault (Option Field) :=
  match value with
  | [] => .ok none
  | [t] =>
      if t.kind = .string then
        read t >>= fun value => .ok (some ⟨name, .string value t.first, t.span⟩)
      else if t.kind = .name then .ok (some ⟨name, .name t.text, t.span⟩)
      else .ok (some ⟨name, .expr, t.span⟩)
  | t :: u :: ts => .ok (some ⟨name, .expr, extent (t :: u :: ts)⟩)

def fieldOf (piece : List Token) (read : LiteralReader := Token.value) :
    Except Fault (Option Field) :=
  match piece with
  | [] => .ok none
  | key :: rest =>
      if key.kind = .punct then .ok none
      else
        Bracketed.keyName key read >>= fun name =>
          match rest with
          | [] =>
              .ok (if key.kind = .name then some ⟨name, .name key.text, key.span⟩
                else none)
          | colon :: value => if colon.text = [':'] then
              valueOf name value read else .ok none

/-- All fields of some chunks in order, those of one name included. -/
def fieldsOf (chunks : List Chunk) (read : LiteralReader := Token.value) :
    Except Fault (List Field) :=
  match chunks with
  | [] => .ok []
  | chunk :: chunks =>
      fieldOf chunk.tokens read >>= fun field? =>
        (fieldsOf chunks read).map fun fields => field?.toList ++ fields

/-- The first field of each name that is not yet `seen`. -/
def firsts (seen : List Text) : List Field → List Field
  | [] => []
  | field :: fields =>
      if seen.contains field.name then firsts seen fields
      else field :: firsts (field.name :: seen) fields

theorem valueAt_eq {b : Bracketed} {l r : List Token} (value : List Token)
    (h : b.Represents (l ++ value ++ r)) (name : Text) (some : value ≠ [])
    (read : LiteralReader) :
    b.valueAt name l.length (l.length + value.length) read =
      valueOf name value read := by
  rw [List.append_assoc] at h
  have first := h.token?_length
  have last := h.token?_add (value.length - 1)
  cases value with
  | nil => contradiction
  | cons t value =>
      cases value with
      | nil =>
          simp only [List.length_singleton, Nat.sub_self, Nat.add_zero] at last
          simp only [Bracketed.valueAt, List.length_singleton, Nat.add_sub_cancel,
            first, valueOf]
          simp [pure, Except.pure, Token.span]
      | cons u value =>
          have final : (t :: u :: value).getLast? =
              (t :: u :: value)[value.length + 1]? := by
            simp [List.getLast?_eq_getElem?]
          simp only [List.length_cons, Nat.add_sub_cancel] at last
          rw [List.getElem?_append_left (by simp), ← final] at last
          have stop : l.length + (value.length + 1 + 1) - 1 = l.length +
              (value.length + 1) := by
            omega
          obtain ⟨v, hv⟩ : ∃ v, (t :: u :: value).getLast? = Option.some v :=
            ⟨_, List.getLast?_cons⟩
          rw [hv] at last
          simp only [Bracketed.valueAt, List.length_cons, stop, first, last,
            valueOf, extent, hv]
          simp [pure, Except.pure]

theorem fieldAt_eq {b : Bracketed} {l piece r : List Token}
    (h : b.Represents (l ++ piece ++ r)) (read : LiteralReader) :
    b.fieldAt l.length (l.length + piece.length) read = fieldOf piece read := by
  have all := h
  rw [List.append_assoc] at h
  have first := h.token?_length
  have second := h.hasText_add 1
  cases piece with
  | nil =>
      unfold Bracketed.fieldAt
      cases b.token? l.length <;> simp [fieldOf, pure, Except.pure]
  | cons key rest =>
      unfold Bracketed.fieldAt
      rw [first]
      simp only [List.cons_append, List.head?_cons, fieldOf, List.length_cons]
      by_cases punct : key.kind = .punct
      · simp [punct, pure, Except.pure]
      · have inside : ¬l.length + (rest.length + 1) ≤ l.length := by omega
        simp only [punct, inside, or_self, if_false]
        congr 1
        funext name
        cases rest with
        | nil =>
            simp only [List.length_nil, Nat.zero_add, true_and]
            by_cases named : key.kind = .name <;> simp [named, pure, Except.pure]
        | cons colon value =>
            have longer :
                ¬(l.length + 1 = l.length + ((colon :: value).length + 1) ∧
                key.kind = .name) := by
              simp
            rw [if_neg longer]
            simp only [List.cons_append, List.getElem?_cons_succ,
              List.getElem?_cons_zero, Option.any_some] at second
            dsimp only
            by_cases isColon : colon.text = [':']
            · rw [if_pos isColon]
              cases value with
              | nil => simp [valueOf, pure, Except.pure]
              | cons v value =>
                  have given := valueAt_eq (l := l ++ [key, colon])
                    (r := r) (v :: value)
                    (by simpa using all) name (by simp) read
                  rw [if_pos (by simp [second, isColon])]
                  rw [← given]
                  simp only [List.length_append, List.length_cons, List.length_nil]
                  congr 1
                  omega
            · rw [if_neg isColon, if_neg (by simp [second, isColon])]
              rfl

private theorem Cut.length_pos {chunk : Chunk} {chunks : List Chunk}
    (h : Cut (chunk :: chunks)) :
    0 < (join (chunk :: chunks)).length := by
  cases h with
  | last _ some => simpa [Chunk.all] using List.length_pos_iff.2 some
  | more =>
      simp only [join_cons, Chunk.all, Option.toList, List.length_append,
        List.length_singleton]
      omega

theorem Cut.tail {chunk : Chunk} {chunks : List Chunk}
    (h : Cut (chunk :: chunks)) : Cut chunks := by
  cases h with
  | last => exact .nil
  | more _ _ later => exact later

theorem Cut.balanced_head {chunk : Chunk} {chunks : List Chunk}
    (h : Cut (chunk :: chunks)) :
    Balanced chunk.tokens := by
  cases h with
  | last unbroken _ => exact unbroken.1
  | more unbroken _ _ => exact unbroken.1

/-- Behind the first chunk and its comma the others follow; behind a chunk without
a comma the list ends. -/
theorem Cut.behind {l r : List Token} {chunk : Chunk} {chunks : List Chunk}
    (h : Cut (chunk :: chunks)) :
    l ++ join (chunk :: chunks) ++ r = (l ++ chunk.all) ++ join chunks ++ r ∧
      (chunk.comma? = none → chunks = []) := by
  refine ⟨by simp, ?_⟩
  cases h with
  | last => simp
  | more => simp

theorem Cut.walk_eq {β : Type} {chunk : Chunk} {chunks : List Chunk}
    (cut : Cut (chunk :: chunks)) (walk : Nat → Nat → β) (read : List Chunk → β)
    (l : List Token) (ended : ∀ i stop, ¬i < stop → walk i stop = read [])
    (behind : walk (l ++ chunk.all).length ((l ++ chunk.all).length +
      (join chunks).length) = read chunks) :
    walk (max l.length (l.length + chunk.tokens.length) + 1)
      (l.length + (join (chunk :: chunks)).length) = read chunks := by
  cases cut with
  | last => exact ended _ _ (by simp [Chunk.all])
  | more =>
      rw [← behind]
      simp only [join_cons, Chunk.all, Option.toList_some, List.length_append,
        List.length_singleton]
      congr 1 <;> omega

/-- The fields of a record are read chunk by chunk. -/
private theorem fieldsFrom_join {b : Bracketed} {l r : List Token}
    {chunks : List Chunk} (cut : Cut chunks)
    (h : b.Represents (l ++ join chunks ++ r)) (seen : List Text)
    (read : LiteralReader) :
    b.fieldsFrom seen l.length (l.length + (join chunks).length) read =
      (fieldsOf chunks read).map (firsts seen) := by
  have ended (seen : List Text) (i close : Nat) (behind : ¬i < close) :
      b.fieldsFrom seen i close read = (fieldsOf [] read).map (firsts seen) := by
    rw [Bracketed.fieldsFrom, if_neg behind]
    rfl
  induction chunks generalizing l seen with
  | nil => exact ended _ _ _ (by simp)
  | cons chunk chunks ih =>
      have stop := cut.skipTo_eq h
      have field : b.fieldAt l.length (l.length + chunk.tokens.length) read =
          fieldOf chunk.tokens read :=
        fieldAt_eq (r := chunk.comma?.toList ++ join chunks ++ r)
        (by simpa [Chunk.all] using h) read
      have shape := (cut.behind (l := l) (r := r)).1
      have later (seen : List Text) :=
        cut.walk_eq (b.fieldsFrom seen · · read)
          (fun chunks => (fieldsOf chunks read).map (firsts seen)) l (ended seen)
          (ih (l := l ++ chunk.all) cut.tail (shape ▸ h) seen)
      rw [Bracketed.fieldsFrom, if_pos (by have := cut.length_pos; omega),
        stop, fieldsOf]
      dsimp only
      rw [field]
      cases fieldOf chunk.tokens read with
      | error fault => rfl
      | ok field? =>
          cases field? with
          | none =>
              simp only [ok_bind, later]
              cases fieldsOf chunks read <;> rfl
          | some field =>
              simp only [ok_bind, later]
              by_cases known : field.name ∈ seen
              · cases fieldsOf chunks read <;> simp [firsts, known]
              · cases fieldsOf chunks read <;>
                  simp [firsts, known, pure, Except.pure]

theorem fieldsFrom_eq {b : Bracketed} {l body r : List Token}
    (balanced : Balanced body) (h : b.Represents (l ++ body ++ r))
    (seen : List Text) (read : LiteralReader) :
    b.fieldsFrom seen l.length (l.length + body.length) read =
      (fieldsOf (chunksOf body) read).map (firsts seen) := by
  obtain ⟨chunks, cut, rfl⟩ := balanced.exists_cut
  rw [fieldsFrom_join cut h, chunksOf_join cut]

/-! ## Elements -/

/-- The tokens between the braces of a chunk that is one brace group. -/
def groupBody? : List Token → Option (List Token)
  | [] => none
  | o :: rest =>
      if o.text = ['{'] ∧ o.kind = .punct ∧ rest ≠ [] ∧
        awaited [] rest.dropLast = some [] then some rest.dropLast
      else none

private theorem Token.pairs_of_await {o c : Token} {closer : Char}
    (opening : o.closer? = some closer) (h : c.await [closer] = some []) :
    o.Pairs c := by
  rcases Token.await_cases h with ⟨_, -, grows⟩ | ⟨-, -, stays⟩ | ⟨-, closing, same⟩
  · simp at grows
  · simp at stays
  · obtain ⟨rfl, -⟩ := List.cons.inj same
    exact pairs_of_closes opening closing

theorem groupBody?_eq_some {piece inner : List Token} (balanced : Balanced piece)
    (h : groupBody? piece = some inner) :
    ∃ o c, piece = o :: (inner ++ [c]) ∧ o.text = ['{'] ∧ o.Pairs c ∧
      Balanced inner := by
  cases piece with
  | nil => simp [groupBody?] at h
  | cons o rest =>
      rw [groupBody?] at h
      split at h
      next isGroup =>
        obtain ⟨brace, punct, more, inside⟩ := isGroup
        cases h
        rcases List.eq_nil_or_concat rest with rfl | ⟨inner, c, rfl⟩
        · contradiction
        · simp only [List.concat_eq_append, List.dropLast_concat]
            at inside balanced ⊢
          obtain ⟨first, -⟩ := List.cons.inj brace
          have opening : o.closer? = some '}' := by
            simp [Token.closer?, punct, first, closerOf?]
          have final : c.await ['}'] = some [] := by
            have := balanced.awaited_eq []
            rw [awaited, Token.await_of_closer? opening, Option.bind_some,
              awaited_append,
              (balanced_iff.2 inside).awaited_eq, Option.bind_some, awaited] at this
            obtain ⟨stack, step, rest⟩ := Option.bind_eq_some_iff.1 this
            cases rest
            exact step
          refine ⟨o, c, rfl, brace, Token.pairs_of_await opening final,
            balanced_iff.2 inside⟩
      next => simp at h

theorem groupBody?_of_pair {o c : Token} {inner : List Token}
    (brace : o.text = ['{']) (pair : o.Pairs c) (inside : Balanced inner) :
    groupBody? (o :: (inner ++ [c])) = some inner := by
  have punct : o.kind = .punct := (Token.closer?_eq_some_iff.1 pair.1).1
  have body : (inner ++ [c]).dropLast = inner := List.dropLast_concat
  rw [groupBody?,
    if_pos ⟨brace, punct, by simp, body.symm ▸ inside.awaited_eq []⟩, body]

def recordOf (piece : List Token) (comma? previousComma? : Option Span)
    (read : LiteralReader := Token.value) : Except Fault (Option Record) :=
  match groupBody? piece with
  | none => .ok none
  | some inner =>
      (fieldsOf (chunksOf inner) read).map fun fields =>
        some ⟨extent piece, firsts [] fields, comma?, previousComma?⟩

open Bracketed in
def elementsOf (previousComma? : Option Span) (chunks : List Chunk)
    (read : LiteralReader := Token.value) : Except Fault Elements :=
  match chunks with
  | [] => .ok ⟨[], 0, false⟩
  | chunk :: chunks =>
      if chunk.tokens = [] then .error .emptyElement
      else
        let comma? := chunk.comma?.map Token.span
        recordOf chunk.tokens comma? previousComma? read >>= fun record? =>
          (elementsOf comma? chunks read).map fun later =>
            ⟨record?.toList ++ later.records, later.count + 1,
              if chunks = [] then comma?.isSome else later.trailingComma⟩

private theorem groupBody?_isSome_of_partner {b : Bracketed}
    {l piece r : List Token} {o : Token} (balanced : Balanced (o :: piece))
    (h : b.Represents (l ++ (o :: piece) ++ r)) (brace : o.text = ['{'])
    (partner : b.partner? l.length = some (l.length + piece.length)) :
    (groupBody? (o :: piece)).isSome := by
  cases opening : o.closer? with
  | none =>
      have single : b.partner? l.length = none :=
        h.single (List.append_assoc l (o :: piece) r) opening
      simp [single] at partner
  | some closer =>
      obtain ⟨inner, c, later, rfl, pair, inside⟩ :=
        (show Balanced ([] ++ o :: piece) from balanced).exists_group opening
      have whole : l ++ (o :: (inner ++ c :: later)) ++ r =
          l ++ o :: inner ++ c :: (later ++ r) := by
        simp
      rw [h.group whole pair inside, Option.some.injEq, List.length_append,
        List.length_cons] at partner
      obtain rfl : later = [] := List.length_eq_zero_iff.1 (by omega)
      rw [groupBody?_of_pair brace pair inside]
      rfl

theorem recordAt_eq {b : Bracketed} {l piece r : List Token}
    (balanced : Balanced piece) (some : piece ≠ [])
    (h : b.Represents (l ++ piece ++ r)) (comma? previousComma? : Option Span)
    (read : LiteralReader) :
    b.recordAt l.length (l.length + piece.length) comma? previousComma? read =
      recordOf piece comma? previousComma? read := by
  cases piece with
  | nil => contradiction
  | cons o rest =>
      have first : b.token? l.length = Option.some o := by
        rw [List.append_assoc] at h
        simp [h.token?_length]
      obtain ⟨last, final⟩ : ∃ last, (o :: rest).getLast? = Option.some last :=
        ⟨_, List.getLast?_cons⟩
      have stop : l.length + (o :: rest).length - 1 = l.length + rest.length := by
        simp
      have second : b.token? (l.length + rest.length) = Option.some last := by
        have := (List.append_assoc l (o :: rest) r ▸ h).token?_add rest.length
        rw [List.getElem?_append_left (by simp)] at this
        rw [List.getLast?_eq_getElem?] at final
        simpa [this] using final
      simp only [Bracketed.recordAt, stop, first, second, recordOf]
      cases body : groupBody? (o :: rest) with
      | none =>
          rw [if_neg]
          · rfl
          · rintro ⟨brace, partner⟩
            simpa [body] using groupBody?_isSome_of_partner balanced h brace partner
      | some inner =>
          obtain ⟨o', c, shape, brace, pair, inside⟩ :=
            groupBody?_eq_some balanced body
          obtain ⟨rfl, rfl⟩ := List.cons.inj shape
          have whole : l ++ (o :: (inner ++ [c])) ++ r = l ++ o :: inner ++
            c :: r := by simp
          have fields := fieldsFrom_eq (l := l ++ [o]) (r := c :: r) inside
            (by simpa using h) [] read
          have start : (l ++ [o]).length = l.length + 1 := by simp
          have stop : (l ++ [o]).length + inner.length = l.length +
              (inner ++ [c]).length := by
            simp
            omega
          rw [stop, start] at fields
          rw [if_pos ⟨brace, by rw [h.group whole pair inside]; simp; omega⟩,
            fields]
          simp only [extent, final]
          cases fieldsOf (chunksOf inner) read <;> rfl

private theorem Cut.comma_eq {b : Bracketed} {l r : List Token} {chunk : Chunk}
    {chunks : List Chunk} (cut : Cut (chunk :: chunks))
    (h : b.Represents (l ++ join (chunk :: chunks) ++ r)) :
    (if l.length + chunk.tokens.length < l.length +
      (join (chunk :: chunks)).length then
      (b.token? (l.length + chunk.tokens.length)).map Token.span else none) =
        chunk.comma?.map Token.span := by
  cases found : chunk.comma? with
  | none =>
      obtain rfl := (cut.behind (l := l) (r := r)).2 found
      simp [Chunk.all, found]
  | some c =>
      have here := (List.append_assoc l _ r ▸ h).token?_add chunk.tokens.length
      simp only [join_cons, Chunk.all, found, Option.toList_some] at here ⊢
      rw [if_pos (by simp), here]
      simp

private theorem Cut.more_iff {chunk : Chunk} {chunks : List Chunk}
    (cut : Cut (chunk :: chunks)) :
    chunk.tokens.length + 1 < (join (chunk :: chunks)).length ↔ chunks ≠ [] := by
  cases cut with
  | last => simp [Chunk.all]
  | @more ts comma chunks unbroken isComma later =>
      cases chunks with
      | nil => simp [Chunk.all]
      | cons next chunks =>
          have := later.length_pos
          simp only [join_cons ⟨ts, some comma⟩, Chunk.all, Option.toList_some,
            List.length_append,
            List.length_singleton, ne_eq, reduceCtorEq, not_false_eq_true, iff_true]
          omega

theorem elementsFrom_join {b : Bracketed} {l r : List Token}
    {chunks : List Chunk} (cut : Cut chunks)
    (h : b.Represents (l ++ join chunks ++ r)) (previousComma? : Option Span)
    (read : LiteralReader) :
    b.elementsFrom previousComma? l.length (l.length + (join chunks).length) read =
      elementsOf previousComma? chunks read := by
  have ended (comma? : Option Span) (i close : Nat) (behind : ¬i < close) :
      b.elementsFrom comma? i close read = elementsOf comma? [] read := by
    rw [Bracketed.elementsFrom, if_neg behind]
    rfl
  induction chunks generalizing l previousComma? with
  | nil => exact ended _ _ _ (by simp)
  | cons chunk chunks ih =>
      have stop := cut.skipTo_eq h
      rw [Bracketed.elementsFrom, if_pos (by have := cut.length_pos; omega),
        stop, elementsOf]
      by_cases empty : chunk.tokens = []
      · rw [if_pos empty, if_pos (by simp [empty])]
      · have record (comma? : Option Span) :
            b.recordAt l.length (l.length + chunk.tokens.length) comma?
              previousComma? read =
                recordOf chunk.tokens comma? previousComma? read :=
          recordAt_eq (r := chunk.comma?.toList ++ join chunks ++ r)
          cut.balanced_head empty
            (by simpa [Chunk.all] using h) comma? previousComma? read
        have shape := (cut.behind (l := l) (r := r)).1
        have later (comma? : Option Span) := cut.walk_eq
          (b.elementsFrom comma? · · read) (elementsOf comma? · read) l
          (ended comma?) (ih (l := l ++ chunk.all) cut.tail (shape ▸ h) comma?)
        have more : l.length + chunk.tokens.length + 1 < l.length +
            (join (chunk :: chunks)).length ↔ chunks ≠ [] := by
          rw [← cut.more_iff]
          omega
        have notEmpty : ¬l.length + chunk.tokens.length = l.length := by
          have := List.length_pos_iff.2 empty
          omega
        rw [if_neg empty, if_neg notEmpty]
        simp only [cut.comma_eq h, record, later, more, ne_eq, ite_not]
        cases recordOf chunk.tokens (chunk.comma?.map Token.span)
          previousComma? read with
        | error fault => rfl
        | ok record? =>
            cases elementsOf (chunk.comma?.map Token.span) chunks read <;> rfl

end Showcase.Registry

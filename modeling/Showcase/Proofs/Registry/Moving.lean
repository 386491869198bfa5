import Showcase.Proofs.Registry.Cutting
import Showcase.Proofs.Registry.Imports
import Showcase.Proofs.Registry.Spelling
import Showcase.Proofs.Registry.Transfer

/-!
# Texts pushed apart

White space and comments put between the tokens of a registry text push apart
what stands before and behind them (`Span.pushed`), and change nothing else that
is read (`scan_insert_gap`).
-/

namespace Showcase

/-- The span of some tokens after `size` characters are put in at `place`: what
starts there moves on, and what ends there stays. -/
def Span.pushed (place size : Nat) (span : Span) : Span :=
  ⟨if span.start < place then span.start else span.start + size,
    if span.stop ≤ place then span.stop else span.stop + size⟩

namespace Registry

def Token.pushed (place size : Nat) (t : Token) : Token :=
  { t with start := if t.start < place then t.start else t.start + size }

variable {place size : Nat} {t u : Token} {start : Nat} {text : Text}
  {tokens : List Token} {next? : Option Char}

/-- Whether a place is not inside a token. -/
def Token.Clear (place : Nat) (t : Token) : Prop := t.stop ≤ place ∨ place ≤ t.start

private theorem Token.Clear.span_pushed (last : u.Clear place) (t : Token) :
    (⟨t.start, u.stop⟩ : Span).pushed place size =
      ⟨(t.pushed place size).start, (u.pushed place size).stop⟩ := by
  have short := u.start_lt_stop
  have stop (v : Token) : (v.pushed place size).stop =
      (if v.start < place then v.start else v.start + size) + v.text.length := rfl
  have length : u.stop = u.start + u.text.length := rfl
  unfold Token.Clear at last
  rw [Span.pushed, stop, Token.pushed, Span.mk.injEq]
  refine ⟨rfl, ?_⟩
  dsimp only
  split <;> split <;> omega

private theorem Token.Clear.span_pushed_self (clear : t.Clear place) :
    (t.pushed place size).span = t.span.pushed place size :=
  (clear.span_pushed t).symm

/-! ## What is read of a text pushed apart -/

private theorem carries_pushed (clear : ∀ t ∈ tokens, t.Clear place) :
    Carries (Token.pushed place size) (Span.pushed place size)
      (fun _ value value' => value' = value) tokens where
  keeps := ⟨fun _ => rfl, fun _ => rfl, fun _ _ => rfl⟩
  span t _ u mem := ((clear u mem).span_pushed t).symm
  decodes _ _ _ value decoded := ⟨value, decoded, rfl⟩

private theorem scan_pushed {text' listName : Text} {doc : Document}
    (tokenized : tokenize text = .ok tokens)
    (clear : ∀ t ∈ tokens, t.Clear place)
    (scanned : scan text listName = .ok doc)
    (tokenized' : tokenize text' = .ok (tokens.map (Token.pushed place size))) :
    scan text' listName = .ok (doc.moved (Span.pushed place size) text') := by
  obtain ⟨doc', scanned', rfl, carried⟩ :=
    scan_carried (carries_pushed clear) tokenized scanned tokenized'
  have steady : Steady (fun _ value value' => value' = value) tokens :=
    fun _ _ _ _ _ same => same
  rw [scanned', carried.eq steady]
  rfl

/-! ## White space and comments between tokens -/

theorem Lexed.shift (h : Lexed start text tokens next?) (size : Nat) :
    Lexed (start + size) text (tokens.map fun t => { t with start :=
      t.start + size }) next? := by
  induction h with
  | nil => exact .nil
  | gap lexeme ends _ ih =>
      rw [Nat.add_right_comm] at ih
      exact .gap lexeme ends ih
  | token lexeme ends _ ih =>
      rw [Nat.add_right_comm] at ih
      exact .token lexeme ends ih

private theorem Lexed.reseat_blank {c d : Char}
    (h : Lexed start text tokens (some d)) (inLine : d ≠ '\n')
    (blank : isBlank c = true) : Lexed start text tokens (some c) := by
  apply h.reseat
  · intro u _ ends comment
    exact absurd (ends comment d rfl) inLine
  · intro t _ _
    exact endsBefore_blank _ _ blank

/-- Where the token at an index starts; behind the last token, where that one
ends. -/
def boundary (tokens : List Token) (k : Nat) : Nat :=
  match tokens[k]? with
  | some t => t.start
  | none => (tokens.getLast?.map Token.stop).getD 0

def insertAt (place : Nat) (gap text : Text) : Text :=
  text.take place ++ gap ++ text.drop place

private theorem insertAt_append (before gap behind : Text) :
    insertAt before.length gap (before ++ behind) = before ++ (gap ++ behind) := by
  rw [insertAt, List.take_left, List.drop_left, List.append_assoc]

private theorem Token.pushed_of_lt (h : t.start < place) :
    t.pushed place size = t := by
  rw [pushed, if_pos h]

private theorem Token.pushed_of_le (h : place ≤ t.start) :
    t.pushed place size = { t with start := t.start + size } := by
  rw [pushed, if_neg (Nat.not_lt.2 h)]

section Insertion

variable {gap : Text} {front back : List Token}

private theorem pushed_of_lt {ts : List Token} (h : ∀ t ∈ ts, t.start < place) :
    ts.map (Token.pushed place size) = ts :=
  (List.map_congr_left fun t mem => Token.pushed_of_lt (h t mem)).trans
  (List.map_id ts)

private theorem boundary_cases (k : Nat) (some : tokens ≠ []) :
    (∃ front t back, tokens = front ++ t :: back ∧ boundary tokens k = t.start) ∨
      ∃ front t, tokens = front ++ [t] ∧ boundary tokens k = t.stop := by
  unfold boundary
  cases found : tokens[k]? with
  | some t =>
      obtain ⟨front, back, rfl⟩ := List.append_of_mem (List.mem_of_getElem? found)
      exact .inl ⟨front, t, back, rfl, rfl⟩
  | none =>
      obtain ⟨last, final⟩ :=
        Option.ne_none_iff_exists'.1 (mt List.getLast?_eq_none_iff.1 some)
      obtain ⟨front, rfl⟩ := List.getLast?_eq_some_iff.1 final
      exact .inr ⟨front, last, rfl, by simp⟩

theorem tokens_ne_nil {listName : Text} {doc : Document}
    (tokenized : tokenize text = .ok tokens)
    (scanned : scan text listName = .ok doc) : tokens ≠ [] := by
  obtain ⟨front, opener, chunks, closer, back, tokenized', -⟩ :=
    exists_located scanned
  obtain rfl : tokens = _ := by simpa [tokenized] using tokenized'
  simp

private theorem stop_le_last {ts : List Token}
    (ordered : ts.Pairwise fun t t' => t.stop ≤ t'.start)
    (last : ts.getLast? = some t) (mem : u ∈ ts) : u.stop ≤ t.stop := by
  obtain ⟨first, head⟩ : ∃ first, ts.head? = some first := by
    cases ts with
    | nil => simp at mem
    | cons first ts => exact ⟨first, rfl⟩
  exact (between_of_pairwise ordered head last mem).2

private theorem clear_start
    (ordered : (front ++ t :: back).Pairwise fun t t' => t.stop ≤ t'.start) :
    (∀ u ∈ front, u.stop ≤ t.start) ∧ ∀ u ∈ t :: back, t.start ≤ u.start := by
  obtain ⟨-, behind, across⟩ := List.pairwise_append.1 ordered
  refine ⟨fun u mem => across u mem t (by simp), fun u mem => ?_⟩
  rcases List.mem_cons.1 mem with rfl | mem
  · exact Nat.le_refl _
  · have := (List.pairwise_cons.1 behind).1 u mem
    have := t.start_lt_stop
    omega

private theorem Lexed.insert_before (h : Lexed 0 text (front ++ t :: back) none)
    (spaces : Gap gap) (blank : gap.head?.any isBlank = true) :
    Lexed 0 (insertAt t.start gap text)
      ((front ++ t :: back).map (Token.pushed t.start gap.length)) none := by
  obtain ⟨c, isFirst, blank⟩ := (Option.any_eq_true _ _).1 blank
  obtain ⟨low, high⟩ := clear_start h.pairwise
  have early : front.map (Token.pushed t.start gap.length) = front :=
    pushed_of_lt fun u mem => Nat.lt_of_lt_of_le u.start_lt_stop (low u mem)
  have late : (t :: back).map (Token.pushed t.start gap.length) =
      (t :: back).map fun u => { u with start := u.start + gap.length } :=
    List.map_congr_left fun u mem => Token.pushed_of_le (high u mem)
  obtain ⟨before, rest, rfl, position, first, here⟩ := h.cutBefore
  have genuine : t.Genuine := here.genuine t (by simp)
  have follow : (gap ++ (t.text ++ rest)).head?.or none = some c := by
    rw [List.head?_append, isFirst]
    rfl
  have behind := spaces.lexed_append (here.shift gap.length)
  rw [Nat.zero_add] at position
  rw [List.map_append, early, late, position, insertAt_append]
  refine Lexed.append ?_ (by rwa [Nat.zero_add, ← position])
  rw [follow]
  exact first.reseat_blank genuine.first_ne_newline blank

private theorem Lexed.insert_behind (h : Lexed 0 text (front ++ [t]) none)
    (spaces : Gap gap) (blank : gap.head?.any isBlank = true) :
    Lexed 0 (insertAt t.stop gap text)
      ((front ++ [t]).map (Token.pushed t.stop gap.length)) none := by
  obtain ⟨c, isFirst, blank⟩ := (Option.any_eq_true _ _).1 blank
  have same : (front ++ [t]).map (Token.pushed t.stop gap.length) =
      front ++ [t] := by
    refine pushed_of_lt fun u mem => Nat.lt_of_lt_of_le u.start_lt_stop ?_
    exact stop_le_last h.pairwise (by simp) mem
  rw [← List.append_nil (front ++ [t])] at h
  obtain ⟨left, right, rfl, first, second, -, stop⟩ := h.split
  obtain ⟨before, rest, rfl, position, ahead, here⟩ := first.cutBefore
  have stop := stop t (by simp)
  obtain rfl : rest = [] := by
    rw [Token.stop, position, List.length_append, List.length_append] at stop
    exact List.length_eq_zero_iff.1 (by omega)
  rw [List.append_nil] at second stop ⊢
  have genuine : t.Genuine := here.genuine t (by simp)
  have follow : (gap ++ right).head?.or none = some c := by
    rw [List.head?_append, isFirst]
    rfl
  have alone := genuine.lexed (endsBefore_blank _ _ blank)
  have upTo : Lexed 0 (before ++ t.text) (front ++ [t])
      ((gap ++ right).head?.or none) := by
    rw [follow]
    exact Lexed.append ahead (by rwa [← position])
  have behind := spaces.lexed_append (second.shift gap.length)
  have whole := upTo.append behind
  rw [List.map_nil, List.append_nil] at whole
  rwa [same, stop, Nat.zero_add, insertAt_append]

end Insertion

/-- White space and comments have no influence on what is read: put in before a
token or behind the last one, they push apart the tokens, and with them the
spans of all that is read. -/
theorem scan_insert_gap {text listName gap : Text} {doc : Document}
    {tokens : List Token} (tokenized : tokenize text = .ok tokens)
    (scanned : scan text listName = .ok doc) (spaces : Gap gap)
    (blank : gap.head?.any isBlank = true) (k : Nat) :
    tokenize (insertAt (boundary tokens k) gap text) =
        .ok (tokens.map (Token.pushed (boundary tokens k) gap.length)) ∧
      (∀ t ∈ tokens, (t.pushed (boundary tokens k) gap.length).span =
        t.span.pushed (boundary tokens k) gap.length) ∧
      scan (insertAt (boundary tokens k) gap text) listName =
        .ok (doc.moved (Span.pushed (boundary tokens k) gap.length)
          (insertAt (boundary tokens k) gap text)) := by
  have lexed := tokenize_eq_ok_iff.1 tokenized
  suffices h : (∀ t ∈ tokens, t.Clear (boundary tokens k)) ∧
      Lexed 0 (insertAt (boundary tokens k) gap text)
        (tokens.map (Token.pushed (boundary tokens k) gap.length)) none from
    ⟨tokenize_eq_ok_iff.2 h.2, fun t mem => (h.1 t mem).span_pushed_self,
      scan_pushed tokenized h.1 scanned (tokenize_eq_ok_iff.2 h.2)⟩
  rcases boundary_cases k (tokens_ne_nil tokenized scanned) with
    ⟨front, t, back, rfl, place⟩ | ⟨front, t, rfl, place⟩
  · obtain ⟨low, high⟩ := clear_start lexed.pairwise
    rw [place]
    refine ⟨fun u mem => ?_, lexed.insert_before spaces blank⟩
    rcases List.mem_append.1 mem with mem | mem
    · exact .inl (low u mem)
    · exact .inr (high u mem)
  · rw [place]
    refine ⟨fun u mem => .inl ?_, lexed.insert_behind spaces blank⟩
    exact stop_le_last lexed.pairwise (by simp) mem

/-! ## A comment between a record and the end of the list -/

def oneRecord : Text := "const versions=[\x7bid:'a'\x7d]".toList

def recordComment : Text := " //]\n/*,\x7b'*/".toList

private theorem gap_recordComment : Gap recordComment :=
  have oneLine : '\n' ∉ [']'] := by decide
  have closed : commentEnd? ",\x7b'*/".toList =
    some ",\x7b'*/".toList.length := by decide
  .blank (by decide) (.lineComment oneLine (.blockComment closed .nil))

def commentedRecord : Text :=
  "const versions=[\x7bid:'a'\x7d //]\n/*,\x7b'*/]".toList

def oneRecordElement : Record :=
  ⟨⟨16, 24⟩, [⟨"id".toList, .string ['a'] '\'', ⟨20, 23⟩⟩], none, none⟩

theorem scan_insert_gap_recordComment : ∃ tokens,
    tokenize oneRecord = .ok tokens ∧ boundary tokens 9 = 24 ∧
      scan oneRecord defaultListName =
        .ok ⟨oneRecord, ⟨15, 25⟩, [], [oneRecordElement], 1, false⟩ ∧
      Gap recordComment ∧ recordComment.head?.any isBlank = true ∧
      scan commentedRecord defaultListName =
        .ok ⟨commentedRecord, ⟨15, 37⟩, [], [oneRecordElement], 1, false⟩ := by
  have found : (tokenize oneRecord).map (boundary · 9) = .ok 24 := by decide +kernel
  obtain ⟨tokens, tokenized, place⟩ := map_eq_ok_iff.1 found
  have scanned : scan oneRecord defaultListName =
      .ok ⟨oneRecord, ⟨15, 25⟩, [], [oneRecordElement], 1, false⟩ := by
        decide +kernel
  obtain ⟨-, -, same⟩ :=
    scan_insert_gap tokenized scanned gap_recordComment (by decide) 9
  have commented : insertAt 24 recordComment oneRecord = commentedRecord := by
    decide
  rw [place, commented] at same
  exact ⟨tokens, tokenized, place, scanned, gap_recordComment, by decide, same⟩

end Registry

end Showcase

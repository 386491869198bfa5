import Showcase.Proofs.Registry.Walk
import Showcase.Registry.Record

/-!
# Finding the list

`listFrom?` looks for the declaration of the list in a token list and gives what
follows from its bracket on; `findList` gives the index of that bracket
(`findList_eq`).  What stands in the list has no influence on where it is found
(`listFrom?_replace`).
-/

namespace Showcase.Registry

def isDeclarer (t : Token) : Bool :=
  t.text == "const".toList || t.text == "let".toList || t.text == "var".toList

/-- What is left of some tokens from the assignment on, or from the `;` that ends
the declaration. -/
def assignmentOf (ts : List Token) : List Token :=
  match _found : seek ['=', ';'] 0 ts with
  | [] => []
  | [e] => [e]
  | e :: g :: rest => if e.text = ['='] ∧ g.text = ['>'] then assignmentOf rest
      else e :: g :: rest
termination_by ts.length
decreasing_by
  have := length_seek_le ['=', ';'] 0 ts
  rw [_found] at this
  simp only [List.length_cons] at this
  omega

def declared (listName : Text) (prev? : Option Token) (t : Token) : Bool :=
  t.kind == .name && t.text == listName && prev?.any isDeclarer

/-- The tokens behind the `=` that some tokens start with, if a bracket follows
it. -/
def opened? : List Token → Option (List Token)
  | e :: o :: rest => if e.text = ['='] ∧ o.text = ['['] then
      some (o :: rest) else none
  | _ => none

def listFrom? (listName : Text) (prev? : Option Token) :
    List Token → Option (List Token)
  | [] => none
  | t :: ts =>
      (if declared listName prev? t then opened? (assignmentOf ts) else none).or
        (listFrom? listName (some t) ts)

/-! ## The same search by index -/

theorem assignmentOf_of_arrow {ts rest : List Token} {e g : Token}
    (h : seek ['=', ';'] 0 ts = e :: g :: rest)
    (arrow : e.text = ['='] ∧ g.text = ['>']) :
    assignmentOf ts = assignmentOf rest := by
  rw [assignmentOf.eq_def]
  split <;> rename_i found <;> rw [h] at found
  · simp at found
  · simp at found
  · obtain ⟨rfl, tail⟩ := List.cons.inj found
    obtain ⟨rfl, rfl⟩ := List.cons.inj tail
    rw [if_pos arrow]

theorem assignmentOf_of_no_arrow {ts : List Token}
    (h : ∀ e g rest, seek ['=', ';'] 0 ts = e :: g :: rest →
      ¬(e.text = ['='] ∧ g.text = ['>'])) :
    assignmentOf ts = seek ['=', ';'] 0 ts := by
  rw [assignmentOf.eq_def]
  split <;> rename_i found
  · exact found.symm
  · exact found.symm
  · rw [if_neg (h _ _ _ found), found]

theorem assignmentOf_suffix (ts : List Token) : assignmentOf ts <:+ ts := by
  induction len : ts.length using Nat.strongRecOn generalizing ts with
  | _ n ih =>
    subst len
    by_cases arrow : ∃ e g rest, seek ['=', ';'] 0 ts = e :: g :: rest ∧
        e.text = ['='] ∧ g.text = ['>']
    · obtain ⟨e, g, rest, found, isArrow⟩ := arrow
      have suffix := seek_suffix ['=', ';'] 0 ts
      rw [found] at suffix
      have shorter := suffix.length_le
      simp only [List.length_cons] at shorter
      rw [assignmentOf_of_arrow found isArrow]
      exact (ih _ (by omega) rest rfl).trans
        (((List.suffix_cons g rest).trans (List.suffix_cons e _)).trans suffix)
    · rw [assignmentOf_of_no_arrow (fun e g rest found isArrow =>
        arrow ⟨e, g, rest, found, isArrow⟩)]
      exact seek_suffix _ _ _

private theorem assignment_eq {b : Bracketed} {l ts : List Token}
    (h : b.Represents (l ++ ts)) :
    b.assignment l.length = l.length + ts.length - (assignmentOf ts).length := by
  induction len : ts.length using Nat.strongRecOn generalizing l ts with
  | _ n ih =>
    subst len
    have suffix := seek_suffix ['=', ';'] 0 ts
    obtain ⟨front, split⟩ := suffix
    have total : ts.length = front.length + (seek ['=', ';'] 0 ts).length := by
      rw [← List.length_append, split]
    have found : b.skipTo ['=', ';'] l.length b.size = (l ++ front).length := by
      have := skipTo_eq (r := []) (by simpa using h) ['=', ';']
      rw [h.size_eq, List.length_append, this, List.length_append]
      omega
    have tail : b.Represents ((l ++ front) ++ seek ['=', ';'] 0 ts) := by
      rw [List.append_assoc, split]
      exact h
    have first := tail.hasText_add 0
    have second := tail.hasText_add 1
    rw [Nat.add_zero] at first
    rw [Bracketed.assignment, found, first, second]
    by_cases arrow : ∃ e g rest, seek ['=', ';'] 0 ts = e :: g :: rest ∧
        e.text = ['='] ∧ g.text = ['>']
    · obtain ⟨e, g, rest, shape, isEquals, isGreater⟩ := arrow
      rw [shape] at tail total ⊢
      rw [if_pos (by simp [isEquals, isGreater])]
      have later := ih rest.length (by simp at total; omega)
        (l := l ++ front ++ [e, g]) (by simpa using tail) rfl
      rw [assignmentOf_of_arrow shape ⟨isEquals, isGreater⟩]
      simp only [List.length_append, List.length_cons, List.length_nil]
        at later total ⊢
      rw [later]
      omega
    · have noArrow (e g : Token) (rest : List Token)
          (found : seek ['=', ';'] 0 ts = e :: g :: rest) : ¬(e.text = ['='] ∧
            g.text = ['>']) :=
        fun isArrow => arrow ⟨e, g, rest, found, isArrow⟩
      rw [assignmentOf_of_no_arrow noArrow]
      rw [if_neg]
      · simp only [List.length_append]
        omega
      · generalize shape : seek ['=', ';'] 0 ts = suffix at noArrow
        cases suffix with
        | nil => simp
        | cons e suffix =>
            cases suffix with
            | nil => simp
            | cons g rest => simpa using noArrow e g rest rfl

private theorem declares_eq {b : Bracketed} {l ts : List Token} {t : Token}
    (h : b.Represents (l ++ t :: ts)) (listName : Text) :
    b.declares listName l.length = declared listName l.getLast? t := by
  have here : b.token? l.length = some t := by simp [h.token?_length]
  unfold Bracketed.declares declared isDeclarer
  rw [here]
  rcases List.eq_nil_or_concat l with rfl | ⟨l, p, rfl⟩
  · simp
  · rw [List.concat_eq_append] at h ⊢
    have before (text : Text) : b.hasText (l ++ [p]).length.pred text =
        (p.text == text) := by
      have := (List.append_assoc l [p] (t :: ts) ▸ h).hasText_add 0 text
      simpa using this
    simp only [← Nat.pred_eq_sub_one, before]
    simp [Bool.and_assoc]

private theorem listAt?_eq {b : Bracketed} {l ts : List Token} {t : Token}
    (h : b.Represents (l ++ t :: ts)) (listName : Text) :
    b.listAt? listName l.length =
      (if declared listName l.getLast? t then opened? (assignmentOf ts)
        else none).map
        fun suffix => l.length + (t :: ts).length - suffix.length := by
  unfold Bracketed.listAt?
  rw [declares_eq h]
  by_cases isDeclared : declared listName l.getLast? t = true
  · obtain ⟨front, split⟩ := assignmentOf_suffix ts
    have tail : b.Represents ((l ++ t :: front) ++ assignmentOf ts) := by
      rw [List.append_assoc, List.cons_append, split]
      exact h
    have total : ts.length = front.length + (assignmentOf ts).length := by
      rw [← List.length_append, split]
    have found : b.assignment (l.length + 1) = (l ++ t :: front).length := by
      have := assignment_eq (l := l ++ [t]) (by simpa using h)
      simp only [List.length_append, List.length_cons, List.length_nil] at this ⊢
      rw [this]
      omega
    have first := tail.hasText_add 0
    have second := tail.hasText_add 1
    rw [Nat.add_zero] at first
    simp only [isDeclared, if_true, found, first, second]
    generalize assignmentOf ts = suffix at total
    match suffix with
    | [] => simp [opened?]
    | [e] => simp [opened?]
    | e :: o :: rest =>
        simp only [List.getElem?_cons_zero, List.getElem?_cons_succ,
          Option.any_some, opened?, Bool.and_eq_true, beq_iff_eq]
        split
        · simp only [List.length_append, List.length_cons, Option.map_some]
            at total ⊢
          congr 1
          omega
        · rfl
  · simp [isDeclared]

private theorem findSome?_listAt? {b : Bracketed} {l ts : List Token}
    (h : b.Represents (l ++ ts)) (listName : Text) :
    (List.range' l.length ts.length).findSome? (b.listAt? listName) =
      (listFrom? listName l.getLast? ts).map fun suffix =>
        l.length + ts.length - suffix.length := by
  induction ts generalizing l with
  | nil => simp [listFrom?]
  | cons t ts ih =>
      have later := ih (l := l ++ [t]) (by simpa using h)
      rw [List.length_cons, List.range'_succ, List.findSome?_cons,
        listAt?_eq h, listFrom?]
      simp only [List.length_append, List.length_singleton, List.getLast?_concat]
        at later
      cases (if declared listName l.getLast? t then opened? (assignmentOf ts)
        else none) with
      | some suffix => simp
      | none =>
          simp only [Option.map_none, Option.none_or, later]
          congr 1
          funext suffix
          omega

/-- The list is found at the same bracket in both ways. -/
theorem findList_eq {b : Bracketed} {tokens : List Token} (h : b.Represents tokens)
    (listName : Text) :
    b.findList listName =
      match listFrom? listName none tokens with
      | some suffix => .ok (tokens.length - suffix.length)
      | none => .error (.listNotFound listName) := by
  have := findSome?_listAt? (l := []) h listName
  rw [Bracketed.findList, h.size_eq, List.range_eq_range']
  simp only [List.length_nil, List.getLast?_nil, Nat.zero_add] at this
  rw [this]
  cases listFrom? listName none tokens <;> rfl

theorem opened?_suffix {ts suffix : List Token} (h : opened? ts = some suffix) :
    ∃ e o rest, ts = e :: suffix ∧ suffix = o :: rest ∧ e.text = ['='] ∧
      o.text = ['['] := by
  unfold opened? at h
  split at h
  next e o rest =>
    split at h
    next isOpened =>
      cases h
      exact ⟨e, o, rest, rfl, rfl, isOpened.1, isOpened.2⟩
    next => simp at h
  next => simp at h

theorem listFrom?_suffix {listName : Text} {prev? : Option Token}
    {ts suffix : List Token} (h : listFrom? listName prev? ts = some suffix) :
    suffix <:+ ts ∧ ∃ o rest, suffix = o :: rest ∧ o.text = ['['] := by
  induction ts generalizing prev? with
  | nil => simp [listFrom?] at h
  | cons t ts ih =>
      rw [listFrom?] at h
      rcases Option.or_eq_some_iff.1 h with here | ⟨-, later⟩
      · split at here
        · obtain ⟨e, o, rest, found, shape, -, bracket⟩ := opened?_suffix here
          have := assignmentOf_suffix ts
          rw [found] at this
          exact ⟨((List.suffix_cons e suffix).trans this).trans
            (List.suffix_cons t ts), o, rest, shape, bracket⟩
        · simp at here
      · obtain ⟨suffix, rest⟩ := ih later
        exact ⟨suffix.trans (List.suffix_cons t ts), rest⟩

/-- No token is a declaration of the list. -/
def Undeclared (listName : Text) : Option Token → List Token → Prop
  | _, [] => True
  | prev?, t :: ts => declared listName prev? t = false ∧
      Undeclared listName (some t) ts

theorem undeclared_append {listName : Text} {prev? : Option Token}
    {ts ts' : List Token} :
    Undeclared listName prev? (ts ++ ts') ↔
      Undeclared listName prev? ts ∧
      Undeclared listName (ts.getLast?.or prev?) ts' := by
  induction ts generalizing prev? with
  | nil => simp [Undeclared]
  | cons t ts ih =>
      rw [List.cons_append, Undeclared, Undeclared, ih, and_assoc,
        List.getLast?_cons]
      cases ts.getLast? <;> rfl

theorem Undeclared.congr {listName : Text} {prev? prev?' : Option Token}
    {ts : List Token} (h : Undeclared listName prev? ts)
    (notDeclarer : prev?'.any isDeclarer = false) :
    Undeclared listName prev?' ts := by
  cases ts with
  | nil => trivial
  | cons t ts => exact ⟨by rw [declared, notDeclarer, Bool.and_false], h.2⟩

theorem listFrom?_append {listName : Text} {prev? : Option Token} {ts : List Token}
    (h : Undeclared listName prev? ts) (rest : List Token) :
    listFrom? listName prev? (ts ++ rest) =
      listFrom? listName (ts.getLast?.or prev?) rest := by
  induction ts generalizing prev? with
  | nil => simp
  | cons t ts ih =>
      rw [List.cons_append, listFrom?, h.1, if_neg (by simp),
        Option.none_or, ih h.2, List.getLast?_cons]
      cases ts.getLast? <;> rfl

/-! ## Other contents of the list -/

private theorem assignmentOf_suffix_seek (ts : List Token) :
    assignmentOf ts <:+ seek ['=', ';'] 0 ts := by
  by_cases arrow : ∃ e g rest, seek ['=', ';'] 0 ts = e :: g :: rest ∧
      e.text = ['='] ∧ g.text = ['>']
  · obtain ⟨e, g, rest, found, isArrow⟩ := arrow
    rw [assignmentOf_of_arrow found isArrow, found]
    exact (assignmentOf_suffix rest).trans
      ((List.suffix_cons g rest).trans (List.suffix_cons e _))
  · have same := assignmentOf_of_no_arrow
      (fun e g rest found isArrow => arrow ⟨e, g, rest, found, isArrow⟩)
    exact same ▸ List.suffix_refl _

theorem assignmentOf_congr {ts ts' : List Token}
    (h : seek ['=', ';'] 0 ts = seek ['=', ';'] 0 ts') :
    assignmentOf ts = assignmentOf ts' := by
  by_cases arrow : ∃ e g rest, seek ['=', ';'] 0 ts = e :: g :: rest ∧
      e.text = ['='] ∧ g.text = ['>']
  · obtain ⟨e, g, rest, found, isArrow⟩ := arrow
    have found' : seek ['=', ';'] 0 ts' = e :: g :: rest := h ▸ found
    rw [assignmentOf_of_arrow found isArrow, assignmentOf_of_arrow found' isArrow]
  · have noArrow (e g : Token) (rest : List Token)
        (found : seek ['=', ';'] 0 ts = e :: g :: rest) : ¬(e.text = ['='] ∧
          g.text = ['>']) :=
      fun isArrow => arrow ⟨e, g, rest, found, isArrow⟩
    rw [assignmentOf_of_no_arrow noArrow, assignmentOf_of_no_arrow (h ▸ noArrow), h]

section Replace

variable {o c : Token} {body body' : List Token}

private theorem seek_group_cases (pair : o.Pairs c) (inside : Balanced body)
    (inside' : Balanced body') (stops : List Char)
    (notStop : o.isPunctIn stops = false) (depth : Nat)
    (front back back' : List Token) :
    (∃ e ahead, e :: ahead <:+ front ∧
      seek stops depth (front ++ o :: (body ++ c :: back)) = e :: ahead ++ o ::
        (body ++ c :: back) ∧
      seek stops depth (front ++ o :: (body' ++ c :: back')) =
        e :: ahead ++ o :: (body' ++ c :: back')) ∨
    ∃ depth', seek stops depth (front ++ o :: (body ++ c :: back)) =
      seek stops depth' back ∧
      seek stops depth (front ++ o :: (body' ++ c :: back')) =
        seek stops depth' back' := by
  induction front generalizing depth with
  | nil =>
      refine .inr ⟨depth, ?_⟩
      cases depth with
      | zero =>
          simp [seek, notStop, pair.1, seek_group pair inside,
            seek_group pair inside']
      | succ depth =>
          simp [seek, pair.1, inside.seek_append, inside'.seek_append,
            pair.closer?_eq_none, pair.closes]
  | cons t front ih =>
      have go (depth' : Nat)
          (same : ∀ us, seek stops depth (t :: us) = seek stops depth' us) :
          (∃ e ahead, e :: ahead <:+ t :: front ∧
            seek stops depth (t :: front ++ o :: (body ++ c :: back)) =
              e :: ahead ++ o :: (body ++ c :: back) ∧
            seek stops depth (t :: front ++ o :: (body' ++ c :: back')) =
              e :: ahead ++ o :: (body' ++ c :: back')) ∨
          ∃ depth', seek stops depth (t :: front ++ o :: (body ++ c :: back)) =
              seek stops depth' back ∧
            seek stops depth (t :: front ++ o :: (body' ++ c :: back')) =
              seek stops depth' back' := by
        rw [List.cons_append, same, List.cons_append, same]
        rcases ih depth' with ⟨e, ahead, suffix, found⟩ | behind
        · exact .inl ⟨e, ahead, suffix.trans (List.suffix_cons t front), found⟩
        · exact .inr behind
      cases depth with
      | zero =>
          by_cases found : t.isPunctIn stops = true
          · refine .inl ⟨t, front, List.suffix_refl _, ?_, ?_⟩ <;>
              simp [seek, found]
          · exact go _ fun us => by rw [seek, if_neg found]
      | succ depth => exact go _ fun us => by rw [seek]

private theorem assignmentOf_group_cases (pair : o.Pairs c) (inside : Balanced body)
    (inside' : Balanced body') (front back back' : List Token) :
    (∃ e ahead, e :: ahead <:+ front ∧
      assignmentOf (front ++ o :: (body ++ c :: back)) = e :: ahead ++ o ::
        (body ++ c :: back) ∧
      assignmentOf (front ++ o :: (body' ++ c :: back')) =
        e :: ahead ++ o :: (body' ++ c :: back')) ∨
    (assignmentOf (front ++ o :: (body ++ c :: back)) <:+ back ∧
      (back = back' → assignmentOf (front ++ o :: (body ++ c :: back)) =
        assignmentOf (front ++ o :: (body' ++ c :: back')))) := by
  induction len : front.length using Nat.strongRecOn generalizing front with
  | _ n ih =>
    subst len
    have opening : closerOf? o.first ≠ none := by
      rw [(Token.closer?_eq_some_iff.1 pair.1).2]
      simp
    have notStop : o.isPunctIn ['=', ';'] = false :=
      Token.isPunctIn_of_closer? pair.1 (by decide)
    rcases seek_group_cases pair inside inside' ['=', ';'] notStop 0 front
      back back' with
      ⟨e, ahead, suffix, found, found'⟩ | ⟨depth, found, found'⟩
    · by_cases arrow : ∃ g later, ahead = g :: later ∧ e.text = ['='] ∧
        g.text = ['>']
      · -- the equals sign of an arrow is passed over, and the search goes on
        -- behind it
        obtain ⟨g, later, rfl, isArrow⟩ := arrow
        have shorter := suffix.length_le
        simp only [List.length_cons] at shorter
        rw [assignmentOf_of_arrow found isArrow,
          assignmentOf_of_arrow found' isArrow]
        rcases ih later.length (by omega) later rfl with
          ⟨e', ahead, suffix', result⟩ | behind
        · refine .inl ⟨e', ahead, suffix'.trans ?_, result⟩
          exact ((List.suffix_cons g later).trans (List.suffix_cons e _)).trans
            suffix
        · exact .inr behind
      · have noArrow {body back : List Token} {ts : List Token}
            (found : seek ['=', ';'] 0 ts = e :: ahead ++ o ::
              (body ++ c :: back)) :
            assignmentOf ts = e :: ahead ++ o :: (body ++ c :: back) := by
          rw [← found]
          apply assignmentOf_of_no_arrow
          intro e' g rest shape isArrow
          rw [found] at shape
          obtain ⟨rfl, tail⟩ := List.cons.inj shape
          cases ahead with
          | nil =>
              obtain ⟨rfl, -⟩ := List.cons.inj tail
              obtain ⟨same, -⟩ := List.cons.inj isArrow.2
              simp [same, closerOf?] at opening
          | cons g' later =>
              obtain ⟨rfl, -⟩ := List.cons.inj tail
              exact arrow ⟨g', later, rfl, isArrow⟩
        exact .inl ⟨e, ahead, suffix, noArrow found, noArrow found'⟩
    · refine .inr ⟨?_, ?_⟩
      · have := assignmentOf_suffix_seek (front ++ o :: (body ++ c :: back))
        rw [found] at this
        exact this.trans (seek_suffix _ _ _)
      · rintro rfl
        exact assignmentOf_congr (found.trans found'.symm)

/-- An assignment of the list is one whatever the list holds and what follows it. -/
theorem opened?_replace (pair : o.Pairs c) (inside : Balanced body)
    (inside' : Balanced body') {front back : List Token} (back' : List Token)
    (h : opened? (assignmentOf (front ++ o :: (body ++ c :: back))) =
      some (o :: (body ++ c :: back))) :
    opened? (assignmentOf (front ++ o :: (body' ++ c :: back'))) =
      some (o :: (body' ++ c :: back')) := by
  rcases assignmentOf_group_cases pair inside inside' front back back' with
    ⟨e, ahead, -, found, found'⟩ | ⟨suffix, -⟩
  · rw [found] at h
    rw [found']
    cases ahead with
    | nil =>
        simp only [List.cons_append, List.nil_append, opened?] at h ⊢
        split at h
        next isOpened => rw [if_pos isOpened]
        next => simp at h
    | cons g ahead =>
        simp only [List.cons_append, opened?] at h
        split at h
        next =>
          have := congrArg List.length (Option.some.inj h)
          simp at this
          omega
        next => simp at h
  · obtain ⟨e, o', rest, shape, -⟩ := opened?_suffix h
    have := suffix.length_le
    rw [shape] at this
    simp at this
    omega

private theorem opened?_replace_none (pair : o.Pairs c) (inside : Balanced body)
    (inside' : Balanced body') {front back : List Token}
    (h : opened? (assignmentOf (front ++ o :: (body ++ c :: back))) = none) :
    opened? (assignmentOf (front ++ o :: (body' ++ c :: back))) = none := by
  rcases assignmentOf_group_cases pair inside inside' front back back with
    ⟨e, ahead, -, found, found'⟩ | ⟨-, same⟩
  · rw [found] at h
    rw [found']
    cases ahead with
    | nil =>
        simp only [List.cons_append, List.nil_append, opened?] at h ⊢
        split at h
        next => simp at h
        next notOpened => rw [if_neg notOpened]
    | cons g ahead =>
        simp only [List.cons_append, opened?] at h ⊢
        split at h
        next => simp at h
        next notOpened => rw [if_neg notOpened]
  · rwa [← same rfl]

/-- What the list holds has no influence on where it is found. -/
theorem listFrom?_replace (pair : o.Pairs c) (inside : Balanced body)
    (inside' : Balanced body') {listName : Text} {prev? : Option Token}
    {front back : List Token}
    (h : listFrom? listName prev? (front ++ o :: (body ++ c :: back)) =
      some (o :: (body ++ c :: back))) :
    listFrom? listName prev? (front ++ o :: (body' ++ c :: back)) =
      some (o :: (body' ++ c :: back)) := by
  induction front generalizing prev? with
  | nil =>
      rw [List.nil_append, listFrom?] at h
      have notName : declared listName prev? o = false := by
        simp [declared, (Token.closer?_eq_some_iff.1 pair.1).1]
      rw [notName] at h
      have := (listFrom?_suffix (by simpa using h)).1.length_le
      simp only [List.length_cons] at this
      omega
  | cons t front ih =>
      rw [List.cons_append, listFrom?] at h ⊢
      rcases Option.or_eq_some_iff.1 h with here | ⟨notHere, later⟩
      · split at here
        next isDeclared =>
          rw [if_pos isDeclared, opened?_replace pair inside inside' back here]
          rfl
        next => simp at here
      · rw [ih later]
        split at notHere
        next isDeclared =>
          rw [if_pos isDeclared, opened?_replace_none pair inside inside' notHere]
          rfl
        next notDeclared => simp [notDeclared]

end Replace

end Showcase.Registry

import Showcase.Proofs.Changes
import Showcase.Proofs.Registry.Commuting

/-!
# Two changes of versions

Changes of two fields give the same registry in either order, and of two changes
of one field only the second counts, unless a shorthand field hides another one
of its name (`changes_order`).
-/

namespace Showcase

open Files Registry

/-- A call that succeeds turns one tree into another. -/
def Change.Turns (change : Change) (catalogue : Catalogue) (id : Json)
    (tree after : Tree) : Prop :=
  ∃ answer, change.run catalogue tree id = (.ok answer, after)

namespace Catalogue

variable {catalogue : Catalogue} {tree after : Tree} {place : Place} {id : Json}
  {change : Change} {text new : Text} {ids points : List CodePoint}

theorem exists_of_turns (h : change.Turns catalogue id tree after) :
    ∃ text ids points, catalogue.readRegistry tree = .ok text ∧
      checkId id = .ok ids ∧
      change.value = .ok points := by
  obtain ⟨answer, run⟩ := h
  rw [change.run_eq] at run
  cases accepted : checkId id with
  | error failure => simp [accepted] at run
  | ok ids =>
      cases requested : change.value with
      | error failure => simp [accepted, requested] at run
      | ok points =>
          simp only [accepted, requested, ok_bind, map_ok] at run
          cases read : catalogue.readRegistry tree with
          | error failure => simp [setField, read] at run
          | ok text => exact ⟨text, ids, points, rfl, rfl, rfl⟩

theorem exists_written (replaceable : tree.Replaceable catalogue.registry place)
    (new : Text) :
    ∃ after, tree.writeText catalogue.registry new = (.ok (), after) ∧
      after.Replaceable catalogue.registry place ∧
      catalogue.readRegistry after = .ok new := by
  obtain ⟨after, wrote, replaced⟩ := replaceable.writeText_eq new
  have again := replaced.replaceable replaceable
  exact ⟨after, wrote, again,
    (readRegistry_eq again).trans (replaced.readText_eq replaceable)⟩

private theorem exists_edit_of_turns
    (replaceable : tree.Replaceable catalogue.registry place)
    (read : catalogue.readRegistry tree = .ok text)
    (accepted : checkId id = .ok ids) (requested : change.value = .ok points)
    (h : change.Turns catalogue id tree after) :
    ∃ new, setText text catalogue.listName ids change.field points =
      .ok (toPoints new) ∧
      after.Replaceable catalogue.registry place ∧
      catalogue.readRegistry after = .ok new := by
  obtain ⟨answer, run⟩ := h
  rw [change.run_eq] at run
  simp only [accepted, requested, ok_bind, map_ok, setField_eq read] at run
  cases edit : Registry.setField text catalogue.listName ids
    change.field points with
  | error failure => simp [edit] at run
  | ok new? =>
      cases new? with
      | none =>
          simp only [edit, map_ok, Prod.mk.injEq] at run
          obtain ⟨-, rfl⟩ := run
          exact ⟨text, by rw [setText, edit]; rfl, replaceable, read⟩
      | some _ =>
          obtain ⟨new, rfl⟩ := exists_of_setField edit
          obtain ⟨written, wrote, again, read'⟩ := exists_written replaceable new
          rw [Tree.writeText] at wrote
          simp only [edit, wrote, map_ok, Prod.mk.injEq] at run
          obtain ⟨-, rfl⟩ := run
          exact ⟨new, by rw [setText, edit]; rfl, again, read'⟩

/-- Whether a version holds the requested value as a string already. -/
def Stores (catalogue : Catalogue) (tree : Tree) (id : Json) (change : Change) :
    Prop :=
  ∃ text ids points, catalogue.readRegistry tree = .ok text ∧ checkId id = .ok ids ∧
    change.value = .ok points ∧
    Registry.Stores text catalogue.listName ids change.field points

/-- The registry is the same text in both trees. -/
def SameRegistry (catalogue : Catalogue) (tree tree' : Tree) : Prop :=
  ∃ text, catalogue.readRegistry tree = .ok text ∧
    catalogue.readRegistry tree' = .ok text

private theorem turns_comm
    (replaceable : tree.Replaceable catalogue.registry place) {id' : Json}
    {change' : Change} {one both other both' : Tree}
    (differs : checkId id ≠ checkId id' ∨ change.field ≠ change'.field)
    (first : change.Turns catalogue id tree one)
    (second : change'.Turns catalogue id' one both)
    (first' : change'.Turns catalogue id' tree other)
    (second' : change.Turns catalogue id other both') :
    catalogue.SameRegistry both both' := by
  obtain ⟨text, ids, points, read, accepted, requested⟩ := exists_of_turns first
  obtain ⟨-, ids', points', -, accepted', requested'⟩ := exists_of_turns first'
  obtain ⟨new, edit, kept, read₁⟩ :=
    exists_edit_of_turns replaceable read accepted requested first
  obtain ⟨last, edit₁, -, after⟩ :=
    exists_edit_of_turns kept read₁ accepted' requested' second
  obtain ⟨new', edit', kept', read₂⟩ :=
    exists_edit_of_turns replaceable read accepted' requested' first'
  obtain ⟨last', edit₂, -, after'⟩ :=
    exists_edit_of_turns kept' read₂ accepted requested second'
  have apart : ids ≠ ids' ∨ change.field ≠ change'.field := by
    refine differs.imp_left fun ne => ?_
    rintro rfl
    exact ne (accepted.trans accepted'.symm)
  obtain rfl := setText_comm change.field_ne_id change'.field_ne_id apart edit
    edit₁ edit' edit₂
  exact ⟨last, after, after'⟩

/-- The second change of a field gives what it gives alone, unless the field is
a shorthand that hides a plain name. -/
private theorem turns_overwrite
    (replaceable : tree.Replaceable catalogue.registry place) {change' : Change}
    {one both alone : Tree} (sameField : change'.field = change.field)
    (fresh : ¬ catalogue.Stores tree id change')
    (first : change.Turns catalogue id tree one)
    (second : change'.Turns catalogue id one both)
    (single : change'.Turns catalogue id tree alone) :
    ∃ text ids id' old, ∃ site : RecordAt catalogue.listName old,
      catalogue.readRegistry tree = .ok text ∧
        scan text catalogue.listName = .ok old ∧
        checkId id = .ok ids ∧ scalars? ids = some id' ∧
        old.find id' = .ok site.record ∧
        (catalogue.SameRegistry both alone ↔
          exposesName change.field site.entries = false) := by
  obtain ⟨text, ids, points, read, accepted, requested⟩ := exists_of_turns first
  obtain ⟨-, -, points', -, -, requested'⟩ := exists_of_turns single
  obtain ⟨between, edit, kept, read₁⟩ :=
    exists_edit_of_turns replaceable read accepted requested first
  obtain ⟨new, edit₁, -, after⟩ :=
    exists_edit_of_turns kept read₁ accepted requested' second
  obtain ⟨new', edit₂, -, after'⟩ :=
    exists_edit_of_turns replaceable read accepted requested' single
  rw [sameField] at edit₁ edit₂
  have fresh' : ¬ Registry.Stores text catalogue.listName ids change.field
    points' := fun stored =>
    fresh ⟨text, ids, points', read, accepted, requested', sameField ▸ stored⟩
  obtain ⟨old, id', site, scanned, isId, found, same⟩ :=
    setText_overwrites change.field_ne_id fresh' edit edit₁ edit₂
  refine ⟨text, ids, id', old, site, read, scanned, accepted, isId, found, ?_⟩
  rw [← same]
  constructor
  · rintro ⟨shared, here, there⟩
    rw [Except.ok.inj (after.symm.trans here),
      Except.ok.inj (after'.symm.trans there)]
  · rintro rfl
    exact ⟨new, after, after'⟩

/-- Changes of two fields commute, and the second of two changes of one field is
the one that counts unless the field is a shorthand that hides a plain name. -/
theorem changes_order (replaceable : tree.Replaceable catalogue.registry place)
    (id : Json) (change : Change) :
    (∀ {id' : Json} {change' : Change} {one both other both' : Tree},
        checkId id ≠ checkId id' ∨ change.field ≠ change'.field →
        change.Turns catalogue id tree one → change'.Turns catalogue id' one both →
        change'.Turns catalogue id' tree other →
        change.Turns catalogue id other both' →
          catalogue.SameRegistry both both') ∧
      ∀ {change' : Change} {one both alone : Tree}, change'.field = change.field →
        ¬ catalogue.Stores tree id change' → change.Turns catalogue id tree one →
        change'.Turns catalogue id one both →
        change'.Turns catalogue id tree alone →
          ∃ text ids id' old, ∃ site : RecordAt catalogue.listName old,
            catalogue.readRegistry tree = .ok text ∧
              scan text catalogue.listName = .ok old ∧
              checkId id = .ok ids ∧ scalars? ids = some id' ∧
              old.find id' = .ok site.record ∧
              (catalogue.SameRegistry both alone ↔
                exposesName change.field site.entries = false) :=
  ⟨turns_comm replaceable, turns_overwrite replaceable⟩

/-! ## Titles in a registry -/

private theorem exists_turns
    (replaceable : tree.Replaceable catalogue.registry place)
    (read : catalogue.readRegistry tree = .ok text)
    (accepted : checkId id = .ok ids) (requested : change.value = .ok points)
    (new : Text)
    (edit : Registry.setField text catalogue.listName ids change.field points =
      .ok (some (toPoints new))) :
    ∃ after, change.Turns catalogue id tree after ∧
      after.Replaceable catalogue.registry place ∧
      catalogue.readRegistry after = .ok new := by
  obtain ⟨after, wrote, again, read'⟩ := exists_written replaceable new
  refine ⟨after, ⟨points, ?_⟩, again, read'⟩
  rw [run_eq_of_setField read accepted requested edit, wrote]
  rfl

private theorem not_stores (read : catalogue.readRegistry tree = .ok text)
    (accepted : checkId id = .ok ids) (requested : change.value = .ok points)
    (edit : Registry.setField text catalogue.listName ids change.field points =
      .ok (some (toPoints new))) :
    ¬ catalogue.Stores tree id change := by
  rintro ⟨_, _, _, read', accepted', requested', doc, id', value, field, scanned,
    isId, isValue, ⟨record, found, current⟩, stored⟩
  obtain rfl := Except.ok.inj (read.symm.trans read')
  obtain rfl := Except.ok.inj (accepted.symm.trans accepted')
  obtain rfl := Except.ok.inj (requested.symm.trans requested')
  have kept := (setField_eq_ok_iff scanned).2
    ⟨id', value, record, field, isId, found, isValue, current, .inl ⟨stored, rfl⟩⟩
  simp [edit] at kept

/-- Two records with titles that are written in these ways. -/
def titledPair (first second : String) : Text :=
  ("const versions=[\x7bid:'a',title:" ++ first ++ "\x7d,\x7bid:'b',title:" ++
    second ++ "\x7d]").toList

theorem changes_order_titledPair : ∃ one both other both' last single,
    (Change.title (.ofString "Longer")).Turns alone (.ofString "a")
      (aloneTree (titledPair "A" "'B'")) one ∧
      (Change.title (.ofString "C")).Turns alone (.ofString "b") one both ∧
      (Change.title (.ofString "C")).Turns alone (.ofString "b")
        (aloneTree (titledPair "A" "'B'")) other ∧
      (Change.title (.ofString "Longer")).Turns alone (.ofString "a") other both' ∧
      alone.SameRegistry both both' ∧
      (Change.title (.ofString "C")).Turns alone (.ofString "a") one last ∧
      (Change.title (.ofString "C")).Turns alone (.ofString "a")
        (aloneTree (titledPair "A" "'B'")) single ∧
      ∃ old, ∃ site : RecordAt alone.listName old,
        alone.SameRegistry last single ↔
          exposesName "title".toList site.entries = false := by
  have isA : checkId (.ofString "a") = .ok (toPoints "a".toList) := by decide
  have isB : checkId (.ofString "b") = .ok (toPoints "b".toList) := by decide
  have longer : (Change.title (.ofString "Longer")).value =
    .ok (toPoints "Longer".toList) := by decide
  have short : (Change.title (.ofString "C")).value =
    .ok (toPoints "C".toList) := by decide
  have replaceable := replaceable_alone (titledPair "A" "'B'")
  have read := readRegistry_alone (titledPair "A" "'B'")
  have setsFirst : Registry.setField (titledPair "A" "'B'") alone.listName
      (toPoints "a".toList)
      (Change.title (.ofString "C")).field (toPoints "C".toList) =
        .ok (some (toPoints (titledPair "\"C\"" "'B'"))) := by
    decide +kernel
  obtain ⟨one, first, kept, read₁⟩ :=
    exists_turns replaceable read isA longer (titledPair "\"Longer\"" "'B'")
    (by decide +kernel)
  obtain ⟨both, second, -⟩ :=
    exists_turns kept read₁ isB short (titledPair "\"Longer\"" "'C'")
    (by decide +kernel)
  obtain ⟨last, third, -⟩ :=
    exists_turns kept read₁ isA short (titledPair "\"C\"" "'B'") (by decide +kernel)
  obtain ⟨other, first', kept', read₂⟩ :=
    exists_turns replaceable read isB short (titledPair "A" "'C'")
    (by decide +kernel)
  obtain ⟨both', second', -⟩ :=
    exists_turns kept' read₂ isA longer (titledPair "\"Longer\"" "'C'")
    (by decide +kernel)
  obtain ⟨single, turns, -⟩ := exists_turns replaceable read isA short _ setsFirst
  obtain ⟨commute, overwrite⟩ :=
    changes_order replaceable (.ofString "a") (.title (.ofString "Longer"))
  have sameField : (Change.title (.ofString "C")).field =
    (Change.title (.ofString "Longer")).field := rfl
  obtain ⟨-, -, -, old, site, -, -, -, -, -, same⟩ :=
    overwrite sameField (not_stores read isA short setsFirst) first third turns
  exact ⟨one, both, other, both', last, single, first, second, first', second',
    commute (.inl (by decide)) first second first' second', third, turns,
    old, site, same⟩

/-- The second title is written as well if the call is made twice. -/
theorem doubledTitle_twice : ∃ one both,
    (Change.title (.ofString "New")).Turns alone (.ofString "a")
      (aloneTree doubledTitle) one ∧
      (Change.title (.ofString "New")).Turns alone (.ofString "a") one both ∧
      (scanText doubledTitle alone.listName).map (fun doc =>
        doc.records.map (·.value? "title".toList)) = .ok [some "title".toList] ∧
      alone.readRegistry one = .ok retitled ∧
      alone.readRegistry both =
        .ok "const versions=[\x7bid:'a',\"New\",title:\"New\"\x7d]".toList ∧
      ¬ alone.SameRegistry both one := by
  have isId : checkId (.ofString "a") = .ok (toPoints "a".toList) := by decide
  have requested : (Change.title (.ofString "New")).value =
    .ok (toPoints "New".toList) := by decide
  obtain ⟨one, first, kept, read⟩ := exists_turns (replaceable_alone doubledTitle)
    (readRegistry_alone doubledTitle) isId requested retitled (by decide +kernel)
  obtain ⟨both, second, -, read'⟩ := exists_turns kept read isId requested
    "const versions=[\x7bid:'a',\"New\",title:\"New\"\x7d]".toList
    (by decide +kernel)
  refine ⟨one, both, first, second, by decide +kernel, read, read', ?_⟩
  rintro ⟨text, here, there⟩
  have same := Except.ok.inj ((read'.symm.trans here).trans (there.symm.trans read))
  exact absurd same (by decide)

end Catalogue

end Showcase

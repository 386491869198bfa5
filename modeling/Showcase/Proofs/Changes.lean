import Showcase.Proofs.Files.Storage
import Showcase.Proofs.Registry.SetField
import Showcase.Catalogue

/-!
# Changed versions

The calls that change a field of a version leave the registry as it is or
replace one value in its text (`Catalogue.change_exact`).
-/

namespace Showcase

open Files Registry

/-- A call that changes a field of a version. -/
inductive Change where
  | type (value : Json)
  | title (value : Json)

namespace Change

def field : Change → Text
  | type _ => "type".toList
  | title _ => "title".toList

/-- What the field is to hold. -/
def value : Change → Except Failure (List CodePoint)
  | type value => (Classification.parse value).map fun target =>
      toPoints target.name
  | title value => Catalogue.checkTitle value

def run (change : Change) (catalogue : Catalogue) (tree : Tree) (id : Json) :
    Outcome (List CodePoint) :=
  match change with
  | type value =>
      let (answer, after) := catalogue.reclassify tree id value
      (answer.map fun target => toPoints target.name, after)
  | title value => catalogue.rename tree id value

theorem field_ne_id (change : Change) : change.field ≠ "id".toList := by
  cases change with
  | type _ => exact (by decide : "type".toList ≠ "id".toList)
  | title _ => exact (by decide : "title".toList ≠ "id".toList)

theorem run_eq (change : Change) (catalogue : Catalogue) (tree : Tree) (id : Json) :
    change.run catalogue tree id =
      match checkId id >>= fun id => change.value.map fun value => (id, value) with
      | .error failure => (.error failure, tree)
      | .ok (id, value) =>
          let (answer, after) := catalogue.setField tree id change.field value
          (answer.map fun _ => value, after) := by
  cases change with
  | type given =>
      rw [run, Catalogue.reclassify, value]
      cases checkId id with
      | error failure => rfl
      | ok points =>
          cases Classification.parse given with
          | error failure => rfl
          | ok target =>
              simp only [ok_bind, map_ok, pure, Except.pure, field]
              cases (catalogue.setField tree points "type".toList
                (toPoints target.name)).1 <;> rfl
  | title given =>
      rw [run, Catalogue.rename, value]
      cases checkId id with
      | error failure => rfl
      | ok points => cases Catalogue.checkTitle given <;> rfl

end Change

namespace Catalogue

variable {catalogue : Catalogue} {tree : Tree} {text : Text} {old : Document}

theorem readText_of_readRegistry (read : catalogue.readRegistry tree = .ok text) :
    tree.readText catalogue.registry = .ok text := by
  obtain ⟨there, -, rest⟩ := bind_eq_ok_iff.1 read
  split at rest
  next => exact rest
  next => simp at rest

theorem setField_eq (read : catalogue.readRegistry tree = .ok text)
    (id : List CodePoint) (field : Text) (value : List CodePoint) :
    catalogue.setField tree id field value =
      match Registry.setField text catalogue.listName id field value with
      | .error failure => (.error failure, tree)
      | .ok none => (.ok (), tree)
      | .ok (some points) => tree.writeAtomic catalogue.registry points := by
  rw [setField, read]
  rfl

theorem run_eq_of_setField {id : Json} {change : Change}
    {ids points : List CodePoint} {new : Text}
    (read : catalogue.readRegistry tree = .ok text)
    (accepted : checkId id = .ok ids) (requested : change.value = .ok points)
    (edit : Registry.setField text catalogue.listName ids change.field points =
      .ok (some (toPoints new))) :
    change.run catalogue tree id =
      let (answer, after) := tree.writeText catalogue.registry new
      (answer.map fun _ => points, after) := by
  rw [change.run_eq, accepted, ok_bind, requested, map_ok]
  simp only [setField_eq read, edit]
  rfl

/-- A value that is stored already is not written again, and all that is ever
written is the old text with another value. -/
theorem change_exact (read : catalogue.readRegistry tree = .ok text)
    (scanned : scan text catalogue.listName = .ok old) (id : Json)
    (change : Change) :
    (∀ {ids points : List CodePoint} {id' value : Text} {record : Record} {field :
      Field} {quote},
        checkId id = .ok ids → scalars? ids = some id' → old.find id' = .ok record →
        change.value = .ok points → scalars? points = some value →
        record.field? change.field = some field →
        field.value = .string value quote →
          change.run catalogue tree id = (.ok points, tree)) ∧
      ((change.run catalogue tree id).2 = tree ∨
        ∃ ids points new, checkId id = .ok ids ∧ change.value = .ok points ∧
          (change.run catalogue tree id).2 =
            (tree.writeText catalogue.registry new).2 ∧
          Rewrites text catalogue.listName old ids change.field points new) := by
  constructor
  · intro ids points id' value record field quote accepted isId found requested
      isValue current stored
    have edit : Registry.setField text catalogue.listName ids change.field
        points = .ok none :=
      (setField_eq_ok_iff scanned).2 ⟨id', value, record, field, isId, found,
        isValue, current, .inl ⟨by simp [stored, FieldValue.isString], rfl⟩⟩
    rw [change.run_eq, accepted, ok_bind, requested, map_ok]
    simp only [setField_eq read, edit, map_ok]
  · rw [change.run_eq]
    cases accepted : checkId id with
    | error failure => exact .inl rfl
    | ok ids =>
        cases requested : change.value with
        | error failure => exact .inl rfl
        | ok points =>
            simp only [ok_bind, map_ok, setField_eq read]
            cases edit : Registry.setField text catalogue.listName ids
              change.field points with
            | error failure => exact .inl rfl
            | ok new? =>
                cases new? with
                | none => exact .inl rfl
                | some written =>
                    obtain ⟨new, rfl⟩ := exists_of_setField edit
                    exact .inr ⟨ids, points, new, rfl, rfl, rfl,
                      rewrites_of_setField scanned change.field_ne_id edit⟩

/-! ## A registry in the root directory -/

def alone : Catalogue :=
  ⟨⟨0, ["index.ts".toList]⟩, defaultListName,
    ⟨⟨0, []⟩, Companions.defaultExtensions⟩⟩

def aloneTree (text : Text) : Tree :=
  ⟨[(["index.ts".toList], .file (Utf8.encode text) 0o644)], []⟩

theorem replaceable_alone (text : Text) :
    (aloneTree text).Replaceable alone.registry ["index.ts".toList] :=
  Tree.replaceable_single (by decide) (by decide) (by decide) text

theorem readRegistry_eq {place : Place}
    (h : tree.Replaceable catalogue.registry place) :
    catalogue.readRegistry tree = tree.readText catalogue.registry := by
  rw [readRegistry, h.doesExist_eq]
  rfl

theorem readRegistry_alone (text : Text) :
    alone.readRegistry (aloneTree text) = .ok text := by
  rw [readRegistry_eq (replaceable_alone text)]
  exact (replaceable_alone text).readText_eq rfl (Utf8.decode?_encode text)

/-- A record with a shorthand title before another one. -/
def doubledTitle : Text :=
  "const versions=[\x7bid:'a',title,title:New\x7d]".toList

/-- The same with a literal where the shorthand title was. -/
def retitled : Text :=
  "const versions=[\x7bid:'a',\"New\",title:New\x7d]".toList

private theorem run_doubledTitle : ∃ after,
    (Change.title (.ofString "New")).run alone (aloneTree doubledTitle)
      (.ofString "a") =
        (.ok (toPoints "New".toList), after) ∧
      (aloneTree doubledTitle).Replaced ["index.ts".toList] retitled after := by
  obtain ⟨after, wrote, replaced⟩ :=
    (replaceable_alone doubledTitle).writeText_eq retitled
  have accepted : checkId (.ofString "a") = .ok (toPoints "a".toList) := by decide
  have requested : (Change.title (.ofString "New")).value =
    .ok (toPoints "New".toList) := by decide
  have edit : Registry.setField doubledTitle alone.listName (toPoints "a".toList)
      (Change.title (.ofString "New")).field (toPoints "New".toList) =
        .ok (some (toPoints retitled)) := by
    decide +kernel
  refine ⟨after, ?_, replaced⟩
  rw [run_eq_of_setField (readRegistry_alone doubledTitle) accepted
    requested edit, wrote]
  rfl

theorem change_exact_doubledTitle : ∃ old ids points new,
    scan doubledTitle defaultListName = .ok old ∧
      Rewrites doubledTitle defaultListName old ids "title".toList points new := by
  have readable : (scan doubledTitle defaultListName).isOk = true := by
    decide +kernel
  cases scanned : scan doubledTitle defaultListName with
  | error fault => simp [scanned, Except.isOk, Except.toBool] at readable
  | ok old =>
      obtain ⟨after, changed, replaced⟩ := run_doubledTitle
      have moved :
          ((Change.title (.ofString "New")).run alone (aloneTree doubledTitle)
          (.ofString "a")).2 ≠ aloneTree doubledTitle := by
        rw [changed]
        rintro rfl
        have old := (readRegistry_alone doubledTitle).symm.trans
          ((readRegistry_eq (replaceable_alone doubledTitle)).trans
            (replaced.readText_eq (replaceable_alone doubledTitle)))
        exact absurd (Except.ok.inj old) (by decide)
      obtain ⟨-, rest⟩ :=
        change_exact (readRegistry_alone doubledTitle) scanned (.ofString "a")
        (.title (.ofString "New"))
      obtain ⟨ids, points, new, -, -, -, rewrites⟩ := rest.resolve_left moved
      exact ⟨old, ids, points, new, rfl, rewrites⟩

/-- The second title shows, and is no string. -/
theorem doubledTitle_not_string : ∃ after doc,
    (Change.title (.ofString "New")).run alone (aloneTree doubledTitle)
      (.ofString "a") =
        (.ok (toPoints "New".toList), after) ∧
      (alone.readRegistry after >>= (scanText · alone.listName)) = .ok doc ∧
      doc.records.map (fun record =>
        (record.field? "title".toList).map Field.value) =
          [some (.name "New".toList)] := by
  obtain ⟨after, changed, replaced⟩ := run_doubledTitle
  have read : alone.readRegistry after = .ok retitled := by
    rw [readRegistry_eq (replaced.replaceable (replaceable_alone doubledTitle))]
    exact replaced.readText_eq (replaceable_alone doubledTitle)
  have titles : (scanText retitled alone.listName).map (fun doc => doc.records.map
      fun record => (record.field? "title".toList).map Field.value) =
        .ok [some (.name "New".toList)] := by decide +kernel
  obtain ⟨doc, scanned, shown⟩ := map_eq_ok_iff.1 titles
  exact ⟨after, doc, changed, by rw [read, ok_bind, scanned], shown⟩

end Catalogue

end Showcase

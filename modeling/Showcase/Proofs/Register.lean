import Showcase.Proofs.Rows

/-!
# A catalogue as a list of rows

The calls of a catalogue, and what a list of rows answers to them (`Rows.step`).
A change sets the one field of the one version that is named, and a deletion
takes this version away (`Holds.shows_step`).
-/

namespace Showcase

open Files Registry

/-! ## Calls -/

inductive Call where
  | list
  | get (id : Json)
  | change (request : Change) (id : Json)
  | delete (id : Json)

/-- A call's answer, as the versions that it shows, and the tree that it leaves. -/
def Call.run (catalogue : Catalogue) (tree : Tree) : Call → Outcome (List Version)
  | list => (catalogue.list tree, tree)
  | get id => ((catalogue.get tree id).map ([·]), tree)
  | change request id =>
      let (answer, after) := request.run catalogue tree id
      (answer.map fun _ => [], after)
  | delete id =>
      let (answer, after) := catalogue.delete tree id
      (answer.map fun _ => [], after)

theorem Call.run_change {catalogue : Catalogue} {tree after : Tree}
    {request : Change} {id : Json} {answer : Except Failure (List CodePoint)}
    (h : request.run catalogue tree id = (answer, after)) :
    (change request id).run catalogue tree = (answer.map fun _ => [], after) := by
  simp only [run, h]

theorem Call.run_delete {catalogue : Catalogue} {tree after : Tree} {id : Json}
    {answer : Except Failure Deletion}
    (h : catalogue.delete tree id = (answer, after)) :
    (delete id).run catalogue tree = (answer.map fun _ => [], after) := by
  simp only [run, h]

theorem Change.field_ne_component (request : Change) :
    request.field ≠ "component".toList := by
  cases request with
  | type _ => exact (by decide : "type".toList ≠ "component".toList)
  | title _ => exact (by decide : "title".toList ≠ "component".toList)

/-- The answers to some calls, one after another, and the tree that the last one
leaves. -/
def Catalogue.run (catalogue : Catalogue) (tree : Tree) :
    List Call → List (Except Failure (List Version)) × Tree
  | [] => ([], tree)
  | call :: calls =>
      let (answer, after) := call.run catalogue tree
      let (answers, last) := catalogue.run after calls
      (answer :: answers, last)

namespace Rows

def versions (rows : List Row) : List Version := rows.filterMap Row.version?

/-- The rows that an edit leaves; a failed one leaves them as they are. -/
def edited (rows : List Row) (edit : Except Failure (List Row)) :
    Except Failure (List Version) × List Row :=
  match edit with
  | .ok rows' => (.ok [], rows')
  | .error failure => (.error failure, rows)

/-- What a call shows of some rows, and the rows that it leaves. -/
def step (rows : List Row) : Call → Except Failure (List Version) × List Row
  | .list => (.ok (versions rows), rows)
  | .get id =>
      match (versions rows).find? fun version => id.text? == some version.id with
      | some version => (.ok [version], rows)
      | none => (.error .noVersion, rows)
  | .change request id =>
      edited rows do
        let id ← checkId id
        let value ← request.value
        write rows id request.field value
  | .delete id => edited rows (checkId id >>= remove rows)

def run (rows : List Row) :
    List Call → List (Except Failure (List Version)) × List Row
  | [] => ([], rows)
  | call :: calls =>
      let (answer, after) := step rows call
      let (answers, last) := run after calls
      (answer :: answers, last)

end Rows

/-! ## What the rows show -/

/-- A version with a string for the field that a change is about. -/
def Version.holding (request : Change) (value : Text) (version : Version) :
    Version :=
  match request with
  | .type _ => { version with type? := some value }
  | .title _ => { version with title? := some value }

/-- A call, its answer, and the versions that are listed before and after it. -/
inductive Shows (versions : List Version) :
    Call → Except Failure (List Version) → List Version → Prop where
  | refused {call : Call} {failure : Failure} :
      Shows versions call (.error failure) versions
  | list : Shows versions .list (.ok versions) versions
  | get {id : Json} {version : Version} (mem : version ∈ versions)
      (here : id.text? = some version.id) :
      Shows versions (.get id) (.ok [version]) versions
  | change {request : Change} {id : Json} {ids points : List CodePoint}
      {id' value : Text}
      (accepted : checkId id = .ok ids) (isId : scalars? ids = some id')
      (requested : request.value = .ok points) (isValue : scalars? points =
        some value)
      (there : ∃ version ∈ versions, version.id = id') :
      Shows versions (.change request id) (.ok [])
        (versions.map fun version => if version.id = id' then
          version.holding request value else version)
  | delete {id : Json} {ids : List CodePoint} {id' : Text} (accepted :
      checkId id = .ok ids)
      (isId : scalars? ids = some id') (there : ∃ version ∈ versions,
        version.id = id') :
      Shows versions (.delete id) (.ok []) (versions.filter (·.id != id'))

private theorem Row.id_of_version? {row : Row} {version : Version}
    (h : row.version? = some version) :
    row.id? = some version.id := by
  obtain ⟨id, here, rfl⟩ := Option.map_eq_some_iff.1 h
  exact here

namespace Picks

variable {rows before after : List Row} {row : Row} {doc : Document} {id : Text}
  {earlier later : List Record} {record : Record}

private theorem exists_version
    (h : Picks rows doc id before row after earlier record later) :
    ∃ version, row.version? = some version ∧ version.id = id := by
  cases made : row.version? with
  | none => simp [Row.version?, h.here] at made
  | some version =>
      exact ⟨version, rfl,
        Option.some.inj ((Row.id_of_version? made).symm.trans h.here)⟩

private theorem id_ne
    (h : Picks rows doc id before row after earlier record later) :
    ∀ version ∈ Rows.versions (before ++ after), version.id ≠ id := by
  intro version mem same
  obtain ⟨other, inside, made⟩ := List.mem_filterMap.1 mem
  exact h.others other inside (same ▸ Row.id_of_version? made)

private theorem versions_eq
    (h : Picks rows doc id before row after earlier record later) {row' : Row}
    {version : Version} (made : row.version? = some version)
    {f : Version → Version} (made' : row'.version? = some (f version)) :
    Rows.versions (before ++ row' :: after) =
      (Rows.versions rows).map fun version => if version.id = id then f version
      else version := by
  have same (part : List Row) (among : ∀ other ∈ part, other ∈ before ++ after) :
      ((Rows.versions part).map fun version => if version.id = id then f version
        else version) =
          Rows.versions part := by
    have each (version : Version) (mem : version ∈ Rows.versions part) :
        (if version.id = id then f version else version) = version := by
      obtain ⟨other, inside, shown⟩ := List.mem_filterMap.1 mem
      exact if_neg (h.id_ne version
        (List.mem_filterMap.2 ⟨other, among other inside, shown⟩))
    exact (List.map_congr_left each).trans (List.map_id' _)
  have here : version.id = id :=
    Option.some.inj ((Row.id_of_version? made).symm.trans h.here)
  have first := same before fun other mem => by simp [mem]
  have last := same after fun other mem => by simp [mem]
  unfold Rows.versions at first last ⊢
  rw [h.rows, List.filterMap_append, List.filterMap_append,
    List.filterMap_cons_some made,
    List.filterMap_cons_some made', List.map_append, List.map_cons,
    if_pos here, first, last]

private theorem versions_without
    (h : Picks rows doc id before row after earlier record later) :
    Rows.versions (before ++ after) = (Rows.versions rows).filter (·.id != id) := by
  obtain ⟨version, made, here⟩ := h.exists_version
  have same (part : List Row) (among : ∀ other ∈ part, other ∈ before ++ after) :
      (Rows.versions part).filter (·.id != id) = Rows.versions part := by
    refine List.filter_eq_self.2 fun version mem => ?_
    obtain ⟨other, inside, shown⟩ := List.mem_filterMap.1 mem
    simpa using h.id_ne version
      (List.mem_filterMap.2 ⟨other, among other inside, shown⟩)
  have first := same before fun other mem => by simp [mem]
  have last := same after fun other mem => by simp [mem]
  unfold Rows.versions at first last ⊢
  rw [h.rows, List.filterMap_append, List.filterMap_append,
    List.filterMap_cons_some made,
    List.filter_append, List.filter_cons_of_neg (by simp [here]), first, last]

end Picks

private theorem Row.version?_holding {row row' : Row} {request : Change}
    {value : Text} {version : Version} (made : row.version? = some version)
    (id : row'.id? = row.id?) (source : row'.source = row.source)
    (here : row'.value? request.field = some value)
    (others : ∀ name, name ≠ request.field → row'.value? name = row.value? name) :
    row'.version? = some (version.holding request value) := by
  obtain ⟨id', held, rfl⟩ := Option.map_eq_some_iff.1 made
  rw [Row.version?, id, held, source, Option.map_some,
    others _ (Ne.symm request.field_ne_component)]
  cases request with
  | type _ =>
      have title := others "title".toList
        (by decide : "title".toList ≠ "type".toList)
      rw [title]
      exact congrArg some (by simp [Version.holding, ← here]; rfl)
  | title _ =>
      have type := others "type".toList (by decide : "type".toList ≠ "title".toList)
      rw [type]
      exact congrArg some (by simp [Version.holding, ← here]; rfl)

namespace Holds

variable {listName text : Text} {rows rows' : List Row} {d : Declaration}
  {doc : Document} {id : Json} {ids : List CodePoint}

private theorem shows_write (holds : Holds listName text rows d doc)
    {request : Change} {points : List CodePoint}
    (accepted : checkId id = .ok ids) (requested : request.value = .ok points)
    (h : Rows.write rows ids request.field points = .ok rows') :
    Shows (Rows.versions rows) (.change request id) (.ok [])
      (Rows.versions rows') := by
  unfold Rows.write at h
  obtain ⟨row, found, h⟩ := bind_eq_ok_iff.1 h
  rcases holds.find_cases ids with
    ⟨absent, -⟩ | ⟨id', before, row', after, earlier, record, later, isId,
    found', picks⟩
  · simp [absent] at found
  obtain rfl : row' = row := Except.ok.inj (found'.symm.trans found)
  obtain ⟨version, made, here⟩ := picks.exists_version
  have there : ∃ version ∈ Rows.versions rows, version.id = id' :=
    ⟨version, List.mem_filterMap.2 ⟨row', by simp [picks.rows], made⟩, here⟩
  cases old : fieldValue? request.field row'.fields with
  | none => simp [old] at h
  | some value' =>
      cases isValue : scalars? points with
      | none => simp [old, isValue] at h
      | some value =>
          rw [old, isValue] at h
          dsimp only at h
          by_cases same : value'.isString value = true
          · rw [if_pos same] at h
            cases h
            have kept : row'.version? = some (version.holding request value) :=
              Row.version?_holding made rfl rfl
                (by rw [Row.value?, old]; exact FieldValue.text?_of_isString same)
                fun _ _ => rfl
            have shown := picks.versions_eq made kept
            rw [← picks.rows] at shown
            have changed :
                Shows (Rows.versions rows) (.change request id) (.ok []) _ :=
              .change accepted isId requested isValue there
            rwa [← shown] at changed
          · rw [if_neg same] at h
            by_cases reads : (row'.write request.field value value').value?
              request.field = some value
            · rw [if_pos reads] at h
              cases h
              rw [picks.map_write, picks.versions_eq made (Row.version?_holding made
                (Row.write_id? request.field_ne_id) rfl reads fun _ =>
                  Row.write_value?)]
              exact .change accepted isId requested isValue there
            · simp [reads] at h

private theorem shows_remove (holds : Holds listName text rows d doc)
    (accepted : checkId id = .ok ids) (h : Rows.remove rows ids = .ok rows') :
    Shows (Rows.versions rows) (.delete id) (.ok []) (Rows.versions rows') := by
  obtain ⟨row, found, h⟩ := bind_eq_ok_iff.1 h
  rcases holds.find_cases ids with
    ⟨absent, -⟩ | ⟨id', before, row', after, earlier, record, later, isId,
    found', picks⟩
  · simp [absent] at found
  obtain rfl : row' = row := Except.ok.inj (found'.symm.trans found)
  obtain ⟨version, made, here⟩ := picks.exists_version
  have there : ∃ version ∈ Rows.versions rows, version.id = id' :=
    ⟨version, List.mem_filterMap.2 ⟨row', by simp [picks.rows], made⟩, here⟩
  cases h
  rw [picks.filter, picks.versions_without]
  exact .delete accepted isId there

theorem shows_step (holds : Holds listName text rows d doc) (call : Call) :
    Shows (Rows.versions rows) call (Rows.step rows call).1
      (Rows.versions (Rows.step rows call).2) := by
  have edited {call : Call} {edit : Except Failure (List Row)}
      (written : ∀ rows', edit = .ok rows' →
        Shows (Rows.versions rows) call (.ok []) (Rows.versions rows')) :
      Shows (Rows.versions rows) call (Rows.edited rows edit).1
        (Rows.versions (Rows.edited rows edit).2) := by
    cases edit with
    | error => exact .refused
    | ok rows' => exact written rows' rfl
  cases call with
  | list => exact .list
  | get id =>
      unfold Rows.step
      dsimp only
      cases found : (Rows.versions rows).find? fun version =>
        id.text? == some version.id with
      | none => exact .refused
      | some version =>
          exact .get (List.mem_of_find?_eq_some found)
            (by simpa using List.find?_some found)
  | change request id =>
      refine edited fun rows' made => ?_
      obtain ⟨ids, accepted, made⟩ := bind_eq_ok_iff.1 made
      obtain ⟨points, requested, made⟩ := bind_eq_ok_iff.1 made
      exact holds.shows_write accepted requested made
  | delete id =>
      refine edited fun rows' made => ?_
      obtain ⟨ids, accepted, made⟩ := bind_eq_ok_iff.1 made
      exact holds.shows_remove accepted made

end Holds

end Showcase

import Showcase.Files.Atomic
import Showcase.Proofs.Files.Walk

/-!
# Where walks end

Behind a file, or a link that leads to a file, no walk goes on.  When such an
entry goes or another file takes its place, the walks that do not end there stay
as they are (`Leads.elsewhere`).
-/

namespace Showcase.Files.Tree

variable {tree tree' : Tree} {ending : Ending} {links links' : Nat}
  {place place' : Place} {names names' : List Text} {spot spot' : Spot}

/-- What is in the one tree is in the other one too. -/
def Within (tree whole : Tree) : Prop :=
  ∀ place entry, tree.get? place = some entry → whole.get? place = some entry

theorem Within.refl (tree : Tree) : tree.Within tree := fun _ _ found => found

theorem Within.erase (tree : Tree) {place : Place} (more : place ≠ []) :
    (tree.erase place).Within tree := by
  intro other entry found
  rw [get?_erase _ _ more] at found
  split at found
  · simp at found
  · exact found

/-- A walk over some names and more names goes on where the walk over the first
ones ends. -/
private theorem Leads.resume {whole : Tree} (within : tree.Within whole)
    (first : Leads whole .follow links' place names spot') (more : names' ≠ [])
    (found : Leads tree ending links place (names ++ names') spot) :
    ∃ links, Leads tree ending links spot'.place names' spot := by
  have more' (names : List Text) : names ++ names' ≠ [] := fun none =>
    more (List.append_eq_nil_iff.1 none).2
  induction first generalizing links with
  | stay => exact ⟨links, found⟩
  | empty _ _ ih => exact ih found.of_empty.2
  | dot _ _ _ ih => exact ih found.of_dot.2
  | up _ _ _ ih => exact ih found.of_up.2
  | absent enters absent =>
      rcases found.of_name enters.proper (more' []) with
        ⟨_, _, there, -⟩ | ⟨_, there, -⟩
      · simp [within _ _ there] at absent
      · simp [within _ _ there] at absent
  | kept _ kept _ => simp at kept
  | link enters there _ _ _ ih =>
      rcases found.of_name enters.proper (more' _) with
        ⟨target, _, there', -, later⟩ | ⟨entry, there', notLink, -⟩
      · obtain rfl : _ = target := by
          simpa using there.symm.trans (within _ _ there')
        exact ih (by rwa [List.append_assoc])
      · exact absurd (Option.some.inj ((within _ _ there').symm.trans there))
          (notLink _)
  | next enters there notLink _ ih =>
      rcases found.of_name enters.proper (more' _) with
        ⟨target, _, there', -⟩ | ⟨_, -, -, later⟩
      · exact absurd (Option.some.inj (there.symm.trans (within _ _ there')))
          (notLink target)
      · exact ih later

theorem Within.isDirectoryAt {whole : Tree} (within : tree.Within whole)
    (h : tree.isDirectoryAt place = true) : whole.isDirectoryAt place = true := by
  unfold Tree.isDirectoryAt at h ⊢
  split at h
  next entry found => simp [within _ _ found, h]
  next => simp at h

private theorem Leads.names_eq_nil {whole : Tree} (within : tree.Within whole)
    {content : ByteArray} {mode : Nat}
    (first : Leads whole .follow links' place names ⟨place',
      some (.file content mode)⟩)
    (found : Leads tree ending links place (names ++ names') spot) :
    names' = [] := by
  refine Classical.byContradiction fun more => ?_
  obtain ⟨links, rest⟩ := first.resume within more found
  have directory := within.isDirectoryAt
    (rest.eq_nil_or_directory.resolve_left more)
  have there := first.found?_eq
  simp [Tree.isDirectoryAt, ← there, Entry.isDirectory] at directory

/-- A walk can only end at this place: nothing is there, or a file, or a link
that leads to a file. -/
inductive IsEnd (tree : Tree) (place : Place) : Prop where
  | absent (h : tree.get? place = none)
  | file {content : ByteArray} {mode : Nat} (h : tree.get? place =
      some (.file content mode))
  | link {target : Text} {links : Nat} {place' : Place} {content : ByteArray}
      {mode : Nat} (h : tree.get? place = some (.link target))
      (leads : Leads tree .follow links (origin place.dropLast target)
        (components target) ⟨place', some (.file content mode)⟩)

theorem IsEnd.isDirectoryAt_eq (h : tree.IsEnd place) :
    tree.isDirectoryAt place = false := by
  cases h with
  | absent h => simp [isDirectoryAt, h]
  | file h => simp [isDirectoryAt, h, Entry.isDirectory]
  | link h => simp [isDirectoryAt, h, Entry.isDirectory]

theorem ne_of_isDirectoryAt {whole : Tree} (within : tree.Within whole)
    (h : whole.IsEnd place') (directory : tree.isDirectoryAt place = true) :
    place ≠ place' := by
  rintro rfl
  have := within.isDirectoryAt directory
  simp [h.isDirectoryAt_eq] at this

section

variable {whole : Tree} {ended : Place}

theorem isDirectoryAt_of_ne
    (agree : ∀ other, other ≠ ended → tree'.get? other = tree.get? other)
    (h : place ≠ ended) : tree'.isDirectoryAt place = tree.isDirectoryAt place := by
  rw [isDirectoryAt, agree place h]
  rfl

theorem permits_of_ne
    (agree : ∀ other, other ≠ ended → tree'.get? other = tree.get? other)
    (h : place ≠ ended) (right : Right) :
    tree'.permits place right = tree.permits place right := by
  rw [permits, agree place h]
  rfl

theorem Enters.elsewhere {name : Text}
    (agree : ∀ other, other ≠ ended → tree'.get? other = tree.get? other)
    (within : tree.Within whole) (isEnd : whole.IsEnd ended)
    (h : tree.Enters ending place name names) :
    tree'.Enters ending place name names := by
  have other := ne_of_isDirectoryAt within isEnd h.directory
  exact ⟨(isDirectoryAt_of_ne agree other).trans h.directory,
    (permits_of_ne agree other _).trans h.search, h.proper, h.noSlash, h.short⟩

/-- When only the entry at an end changes, a walk that does not come there stays
as it is, and any other now ends there. -/
theorem Leads.elsewhere
    (agree : ∀ other, other ≠ ended → tree'.get? other = tree.get? other)
    (within : tree.Within whole) (isEnd : whole.IsEnd ended)
    (notLink : ∀ target, tree'.get? ended ≠ some (.link target))
    (h : Leads tree ending links place names spot) :
    (spot.place ≠ ended ∧ Leads tree' ending links place names spot) ∨
      Leads tree' ending links place names ⟨ended, tree'.get? ended⟩ ∧
        (ending = .keep → spot.place = ended) := by
  induction h with
  | @stay links place =>
      by_cases here : place = ended
      · subst here
        exact .inr ⟨.stay, fun _ => rfl⟩
      · refine .inl ⟨here, ?_⟩
        rw [← agree place here]
        exact .stay
  | empty directory _ ih =>
      have directory' :=
        (isDirectoryAt_of_ne agree
          (ne_of_isDirectoryAt within isEnd directory)).trans directory
      exact ih.imp (.imp_right (.empty directory')) (.imp_left (.empty directory'))
  | dot directory search _ ih =>
      have other := ne_of_isDirectoryAt within isEnd directory
      have directory' := (isDirectoryAt_of_ne agree other).trans directory
      have search' := (permits_of_ne agree other _).trans search
      exact ih.imp (.imp_right (.dot directory' search'))
        (.imp_left (.dot directory' search'))
  | up directory search _ ih =>
      have other := ne_of_isDirectoryAt within isEnd directory
      have directory' := (isDirectoryAt_of_ne agree other).trans directory
      have search' := (permits_of_ne agree other _).trans search
      exact ih.imp (.imp_right (.up directory' search'))
        (.imp_left (.up directory' search'))
  | @absent _ place name enters found =>
      have enters' := enters.elsewhere agree within isEnd
      by_cases here : place ++ [name] = ended
      · subst here
        exact .inr ⟨enters'.leads notLink _, fun _ => rfl⟩
      · exact .inl ⟨here, .absent enters' ((agree _ here).trans found)⟩
  | @kept _ place name _ enters kept found =>
      subst kept
      have enters' := enters.elsewhere agree within isEnd
      by_cases here : place ++ [name] = ended
      · subst here
        exact .inr ⟨enters'.leads notLink _, fun _ => rfl⟩
      · exact .inl ⟨here, .kept enters' rfl ((agree _ here).trans found)⟩
  | @link _ place name names target _ enters found notKept more later ih =>
      have enters' := enters.elsewhere agree within isEnd
      by_cases here : place ++ [name] = ended
      · subst here
        have found := within _ _ found
        cases isEnd with
        | absent there => simp [there] at found
        | file there => simp [there] at found
        | link there leads =>
            -- the walk through this link ends at a file, so it has no name left
            obtain rfl : _ = target := by simpa [there] using found
            rw [List.dropLast_concat] at leads
            obtain rfl := leads.names_eq_nil within later
            exact .inr ⟨enters'.leads notLink _,
              fun kept => absurd ⟨rfl, kept⟩ notKept⟩
      · have found' := (agree _ here).trans found
        exact ih.imp (.imp_right (.link enters' found' notKept more))
          (.imp_left (.link enters' found' notKept more))
  | @next _ place name names entry _ enters found notLink' later ih =>
      have enters' := enters.elsewhere agree within isEnd
      by_cases here : place ++ [name] = ended
      · subst here
        obtain rfl : names = [] := by
          refine later.eq_nil_or_directory.resolve_right fun directory => ?_
          exact ne_of_isDirectoryAt within isEnd directory rfl
        cases later
        exact .inr ⟨enters'.leads notLink _, fun _ => rfl⟩
      · have found' := (agree _ here).trans found
        exact ih.imp (.imp_right (.next enters' found' notLink'))
          (.imp_left (.next enters' found' notLink'))

end

/-! ## Paths -/

theorem Leads.isEnd {content : ByteArray} {mode : Nat}
    (h : Leads tree .keep links place names spot)
    (followed : tree.walk .follow links place names =
      .ok ⟨place', some (.file content mode)⟩) :
    tree.IsEnd spot.place := by
  induction h with
  | stay =>
      rw [walk] at followed
      exact .file (congrArg Spot.found? (Except.ok.inj followed))
  | empty directory _ ih => exact ih (walk_empty directory ▸ followed)
  | dot directory search _ ih => exact ih (walk_dot directory search ▸ followed)
  | up directory search _ ih => exact ih (walk_up directory search ▸ followed)
  | absent _ found => exact .absent found
  | kept enters _ found =>
      cases leads_of_walk followed with
      | empty => exact absurd rfl enters.proper.1
      | dot => exact absurd rfl enters.proper.2.1
      | up => exact absurd rfl enters.proper.2.2
      | link _ there _ _ later =>
          obtain rfl := Entry.link.inj (Option.some.inj (found.symm.trans there))
          exact .link found (by simpa using later)
      | next _ there notLink _ =>
          exact absurd (Option.some.inj (there.symm.trans found)) (notLink _)
  | link enters found _ more _ ih =>
      rw [(enters.change (by simp)).walk_link found (by simp) more] at followed
      exact ih followed
  | next enters found notLink _ ih =>
      rw [(enters.change (by simp)).walk_next found notLink] at followed
      exact ih followed

theorem isEnd_of_locate {path : Path} {content : ByteArray} {mode : Nat}
    (kept : tree.locate .keep path = .ok spot)
    (followed : tree.locate .follow path = .ok ⟨place, some (.file content mode)⟩) :
    tree.IsEnd spot.place :=
  (locate_eq_ok_iff.1 kept).2.2.isEnd (locate_eq_ok_iff.1 followed).2.2.walk_eq

/-- When only the entry at an end changes, a path that does not lead there leads
where it did. -/
theorem locate_elsewhere {whole : Tree} {ended : Place} {path : Path}
    (here : tree'.here = tree.here)
    (agree : ∀ other, other ≠ ended → tree'.get? other = tree.get? other)
    (within : tree.Within whole) (isEnd : whole.IsEnd ended)
    (notLink : ∀ target, tree'.get? ended ≠ some (.link target))
    (h : tree.locate ending path = .ok spot) :
    (spot.place ≠ ended ∧ tree'.locate ending path = .ok spot) ∨
      tree'.locate ending path = .ok ⟨ended, tree'.get? ended⟩ ∧
        (ending = .keep → spot.place = ended) := by
  obtain ⟨noNul, short, led⟩ := locate_eq_ok_iff.1 h
  simp only [locate_eq_ok_iff, here]
  rcases led.elsewhere agree within isEnd notLink with ⟨other, led'⟩ | ⟨led', kept⟩
  · exact .inl ⟨other, noNul, short, led'⟩
  · exact .inr ⟨⟨noNul, short, led'⟩, kept⟩

/-! ## Files -/

theorem stat_eq_ok_iff {path : Path} {entry : Entry} :
    tree.stat path = .ok entry ↔ ∃ place, tree.locate .follow path =
      .ok ⟨place, some entry⟩ := by
  unfold stat
  constructor
  · intro h
    obtain ⟨⟨place, found?⟩, located, rest⟩ := bind_eq_ok_iff.1 h
    cases found? with
    | none => simp at rest
    | some entry' =>
        cases rest
        exact ⟨place, located⟩
  · rintro ⟨place, located⟩
    rw [located]
    rfl

theorem isFile_eq_true_iff {path : Path} :
    tree.isFile path = .ok true ↔
      ∃ place content mode, tree.locate .follow path =
        .ok ⟨place, some (.file content mode)⟩ := by
  unfold isFile test
  constructor
  · intro h
    split at h
    next entry found =>
      obtain ⟨place, located⟩ := stat_eq_ok_iff.1 found
      cases entry with
      | file content mode => exact ⟨place, content, mode, located⟩
      | directory mode => simp [Entry.isFile] at h
      | link target => simp [Entry.isFile] at h
    all_goals simp at h
  · rintro ⟨place, content, mode, located⟩
    rw [stat_eq_ok_iff.2 ⟨place, located⟩]
    rfl

/-- When a file takes the place of an end, every path that leads to a file still
does. -/
theorem isFile_of_file_at_end {whole : Tree} {ended : Place} {path : Path}
    {content : ByteArray} {mode : Nat} (here : tree'.here = tree.here)
    (agree : ∀ other, other ≠ ended → tree'.get? other = tree.get? other)
    (within : tree.Within whole) (isEnd : whole.IsEnd ended)
    (file : tree'.get? ended = some (.file content mode))
    (h : tree.isFile path = .ok true) :
    tree'.isFile path = .ok true := by
  obtain ⟨place, content', mode', located⟩ := isFile_eq_true_iff.1 h
  rcases locate_elsewhere here agree within isEnd (by simp [file]) located with
    ⟨-, located'⟩ | ⟨located', -⟩
  · exact isFile_eq_true_iff.2 ⟨_, _, _, located'⟩
  · rw [file] at located'
    exact isFile_eq_true_iff.2 ⟨_, _, _, located'⟩

theorem exists_of_readText {path : Path} {text : Text}
    (h : tree.readText path = .ok text) :
    ∃ place content mode, tree.locate .follow path =
      .ok ⟨place, some (.file content mode)⟩ ∧
      (Entry.file content mode).permits .read = true ∧
      Utf8.decode? content = some text := by
  unfold readText at h
  cases read : tree.readFile path with
  | error failure => cases failure <;> simp [read] at h
  | ok content =>
      rw [read] at h
      dsimp only at h
      unfold readFile at read
      obtain ⟨entry, found, rest⟩ := bind_eq_ok_iff.1 read
      obtain ⟨place, located⟩ := stat_eq_ok_iff.1 found
      split at rest
      · simp at rest
      next readable =>
        cases entry with
        | directory mode => simp at rest
        | link target => simp at rest
        | file content' mode =>
            cases rest
            refine ⟨place, content, mode, located, by simpa using readable, ?_⟩
            split at h
            next decoded => rw [decoded, Except.ok.inj h]
            next => simp at h

theorem readText_eq_of_locate {path : Path} {text : Text} {content : ByteArray}
    {mode : Nat}
    (located : tree.locate .follow path = .ok ⟨place, some (.file content mode)⟩)
    (readable : (Entry.file content mode).permits .read = true)
    (decoded : Utf8.decode? content = some text) :
    tree.readText path = .ok text := by
  simp only [readText, readFile, stat_eq_ok_iff.2 ⟨place, located⟩,
    ok_bind, readable, Bool.true_eq_false, if_false]
  simp [pure, Except.pure, decoded]

end Showcase.Files.Tree

import Showcase.Proofs.Files.Ends
import Showcase.Proofs.Files.Writing

/-!
# Files put in place

A path leads to the file that is put where it ended, unless it led to a directory
(`locate_of_puts`).
-/

namespace Showcase.Files.Tree

variable {tree after : Tree} {path : Path} {spot : Spot} {ended : Place}

/-- A walk does not go on behind names that lead to no directory. -/
private theorem not_leads_beyond {links links' : Nat} {place : Place}
    {names more : List Text}
    (notLoop : tree.walk .follow links place names ≠ .error .tooManyLinks)
    (notDirectory : ∀ spot, tree.walk .follow links place names = .ok spot →
      tree.isDirectoryAt spot.place = false)
    (nonempty : more ≠ []) :
    ¬Leads tree .keep links' place (names ++ more) spot := by
  induction links, place,
    names using walk_induction tree .follow generalizing links' with
  | stay links place =>
      intro found
      have directory := found.eq_nil_or_directory.resolve_left nonempty
      exact absurd ((notDirectory _ (by rw [walk])).symm.trans directory) (by simp)
  | notDirectory _ place name names noDirectory =>
      intro found
      have directory := found.eq_nil_or_directory.resolve_left (by simp)
      simp [noDirectory] at directory
  | empty _ _ _ directory ih =>
      rw [walk_empty directory] at notLoop notDirectory
      exact fun found => ih notLoop notDirectory found.of_empty.2
  | noSearch _ _ _ _ directory named search =>
      intro found
      have walked := found.walk_eq
      rw [List.cons_append, walk_noSearch directory named search] at walked
      simp at walked
  | dot _ _ _ directory search ih =>
      rw [walk_dot directory search] at notLoop notDirectory
      exact fun found => ih notLoop notDirectory found.of_dot.2
  | up _ _ _ directory search ih =>
      rw [walk_up directory search] at notLoop notDirectory
      exact fun found => ih notLoop notDirectory found.of_up.2
  | slash _ _ _ _ _ _ _ slash => simp at slash
  | long _ _ _ _ directory search proper _ long =>
      intro found
      have walked := found.walk_eq
      rw [List.cons_append, walk_long directory search proper (by simp) long]
        at walked
      simp at walked
  | enters links place name names enters fewer shorter =>
      intro found
      rcases found.of_name enters.proper (by simp [nonempty]) with
        ⟨target, _, there, more', later⟩ | ⟨entry, there, notLink, later⟩
      · cases links with
        | zero => exact notLoop (by simp [enters.walk_eq, there, more'])
        | succ links =>
            rw [enters.walk_link there (by simp) more'] at notLoop notDirectory
            exact fewer _ _ _ (Nat.lt_succ_self links) notLoop notDirectory
              (by rwa [List.append_assoc])
      · rw [enters.walk_next there notLink] at notLoop notDirectory
        exact shorter _ notLoop notDirectory later

/-- Where one walk keeps to a link, the walk that follows links goes on behind
it. -/
theorem Leads.followed {links : Nat} {place : Place} {names : List Text}
    {target : Text}
    (h : Leads tree .keep links place names ⟨ended, some (.link target)⟩)
    (nonempty : target ≠ []) :
    tree.walk .follow links place names = .ok ⟨ended, some (.link target)⟩ ∨
      tree.walk .follow links place names = .error .tooManyLinks ∨
      ∃ links', tree.walk .follow links place names =
        tree.walk .follow links' (origin ended.dropLast target)
        (components target) := by
  generalize last : Spot.mk ended (some (.link target)) = spot at h
  induction h with
  | stay =>
      obtain ⟨rfl, found⟩ := Spot.mk.inj last
      rw [walk, ← found]
      exact .inl rfl
  | empty directory _ ih => simpa only [walk_empty directory] using ih last
  | dot directory search _ ih =>
      simpa only [walk_dot directory search] using ih last
  | up directory search _ ih => simpa only [walk_up directory search] using ih last
  | absent => simp at last
  | @kept links _ _ _ enters _ there =>
      obtain ⟨rfl, found⟩ := Spot.mk.inj last
      obtain rfl := Entry.link.inj (Option.some.inj found)
      have enters' : tree.Enters .follow _ _ [] := enters.change (by simp)
      cases links with
      | zero => exact .inr (.inl (by simp [enters'.walk_eq, there, nonempty]))
      | succ links =>
          refine .inr (.inr ⟨links, ?_⟩)
          rw [enters'.walk_link there (by simp) nonempty, List.append_nil,
            List.dropLast_concat]
  | link enters there _ more _ ih =>
      rw [(enters.change (by simp)).walk_link there (by simp) more]
      exact ih last
  | next enters there notLink _ ih =>
      rw [(enters.change (by simp)).walk_next there notLink]
      exact ih last

/-- A walk that ends where a file is put leads to the file, if no walk went on
behind that place. -/
theorem Leads.put {links : Nat} {place : Place} {names : List Text}
    {content : ByteArray} {mode : Nat}
    (puts : tree.Puts ended (.file content mode) after)
    (notDirectory : tree.isDirectoryAt ended = false)
    (dead : ∀ target, tree.get? ended = some (.link target) → target ≠ [] →
      ∀ links more spot, more ≠ [] → ¬Leads tree .keep links
      (origin ended.dropLast target) (components target ++ more) spot)
    (h : Leads tree .keep links place names spot) (ends : spot.place = ended) :
    Leads after .follow links place names ⟨ended, some (.file content mode)⟩ := by
  have agree : ∀ other, other ≠ ended → after.get? other = tree.get? other :=
    fun other differs => by rw [puts.get?_eq, if_neg differs]
  have put : after.get? ended = some (.file content mode) := by
    rw [puts.get?_eq, if_pos rfl]
  have apart {place : Place} (directory : tree.isDirectoryAt place = true) :
      place ≠ ended := by
    rintro rfl
    simp [notDirectory] at directory
  have enters' {place : Place} {name : Text} {names : List Text}
      (enters : tree.Enters .keep place name names) :
        after.Enters .follow place name names := by
    have other := apart enters.directory
    exact ⟨(isDirectoryAt_of_ne agree other).trans enters.directory,
      (permits_of_ne agree other _).trans enters.search, enters.proper, by
        simp, enters.short⟩
  have arrives {links : Nat} {place : Place} {name : Text}
      (enters : tree.Enters .keep place name [])
      (here : place ++ [name] = ended) :
      Leads after .follow links place [name] ⟨ended,
        some (.file content mode)⟩ := by
    subst here
    have led := (enters' enters).leads (by simp [put]) links
    rwa [put] at led
  induction h with
  | stay =>
      subst ends
      rw [← put]
      exact .stay
  | empty directory _ ih =>
      exact .empty ((isDirectoryAt_of_ne agree (apart directory)).trans directory)
        (ih ends)
  | dot directory search _ ih =>
      exact .dot ((isDirectoryAt_of_ne agree (apart directory)).trans directory)
        ((permits_of_ne agree (apart directory) _).trans search) (ih ends)
  | up directory search _ ih =>
      exact .up ((isDirectoryAt_of_ne agree (apart directory)).trans directory)
        ((permits_of_ne agree (apart directory) _).trans search) (ih ends)
  | absent enters _ => exact arrives enters ends
  | kept enters _ _ => exact arrives enters ends
  | @link _ place name names target _ enters there notKept nonempty later ih =>
      have more : names ≠ [] := fun last => notKept ⟨last, rfl⟩
      by_cases here : place ++ [name] = ended
      · -- a link there would be followed with names to come, which `dead` excludes
        subst here
        rw [List.dropLast_concat] at dead
        exact absurd later (dead target there nonempty _ _ _ more)
      · exact .link (enters' enters) ((agree _ here).trans there) (by simp)
          nonempty (ih ends)
  | @next _ place name names entry _ enters there notLink later ih =>
      by_cases here : place ++ [name] = ended
      · obtain rfl : names = [] := by
          refine later.eq_nil_or_directory.resolve_right fun directory => ?_
          exact apart directory here
        exact arrives enters here
      · exact .next (enters' enters) ((agree _ here).trans there) notLink (ih ends)

/-- A path that led to no directory leads to the file that is put where it ended. -/
theorem locate_of_puts {content : ByteArray} {mode : Nat}
    (puts : tree.Puts spot.place (.file content mode) after)
    (kept : tree.locate .keep path = .ok spot)
    (notDirectory : (spot.found?.map Entry.isDirectory).getD false = false)
    (notLoop : tree.stat path ≠ .error (.system .tooManyLinks))
    (isFile : ∀ entry, tree.stat path = .ok entry → entry.isFile = true) :
    after.locate .follow path = .ok ⟨spot.place, some (.file content mode)⟩ := by
  obtain ⟨noNul, short, led⟩ := locate_eq_ok_iff.1 kept
  have located : tree.locate .follow path = (tree.walk .follow maxLinks
      (origin tree.here path.toText) (components path.toText)).mapError
      .system := by
    rw [locate, if_neg (by simp [noNul]), if_neg (by omega)]
  have noLoop : tree.walk .follow maxLinks (origin tree.here path.toText)
      (components path.toText) ≠ .error .tooManyLinks := by
    intro failed
    rw [failed] at located
    exact notLoop (by rw [stat, located]; rfl)
  have file (spot : Spot) (entry : Entry) (walked : tree.walk .follow maxLinks
      (origin tree.here path.toText) (components path.toText) = .ok spot)
      (found : spot.found? = some entry) : entry.isFile = true := by
    rw [walked] at located
    exact isFile entry
      (stat_eq_ok_iff.2 ⟨spot.place, by rw [located, ← found]; rfl⟩)
  have noDirectory (spot : Spot) (walked : tree.walk .follow maxLinks
      (origin tree.here path.toText) (components path.toText) = .ok spot) :
      tree.isDirectoryAt spot.place = false := by
    have there := (leads_of_walk walked).found?_eq
    rw [isDirectoryAt, ← there]
    cases found : spot.found? with
    | none => rfl
    | some entry =>
        have isFile' := file spot entry walked found
        cases entry with
        | file content mode => rfl
        | directory mode => simp [Entry.isFile] at isFile'
        | link target => simp [Entry.isFile] at isFile'
  refine locate_eq_ok_iff.2 ⟨noNul, short, ?_⟩
  rw [puts.here]
  refine led.put puts (isDirectoryAt_of_target kept notDirectory) ?_ rfl
  intro target there nonempty links more spot' some
  have found : spot.found? = .some (.link target) := led.found?_eq.trans there
  obtain ⟨ended, found?⟩ := spot
  obtain rfl : found? = .some (.link target) := found
  rcases led.followed nonempty with walked | walked | ⟨links', walked⟩
  · exact absurd (file _ _ walked rfl) (by simp [Entry.isFile])
  · exact absurd walked noLoop
  · rw [walked] at noLoop noDirectory
    exact not_leads_beyond noLoop noDirectory some

end Showcase.Files.Tree

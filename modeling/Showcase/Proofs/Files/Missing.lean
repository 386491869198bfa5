import Showcase.Proofs.Files.Directories
import Showcase.Proofs.Files.Stored

/-!
# Missing files

Where a path leads nowhere it still does when directories are made on the way to
it, unless double dots lead out of them (`Admits.makeDirectories`).  A temporary
file for it changes nothing either (`missing_of_temporary`).
-/

namespace Showcase.Files

/-! ## The names of a path -/

namespace Path

theorem Proper.part {path : Path} (h : path.Proper) :
    ∀ part ∈ path.parts, part ≠ [] ∧ '/' ∉ part := by
  intro part mem
  obtain ⟨isPart, noSlash⟩ := h part mem
  refine ⟨?_, noSlash⟩
  rintro rfl
  exact absurd isPart (by decide)

theorem toText_eq {path : Path} (some : path.parts ≠ []) :
    path.toText = List.replicate path.slashes '/' ++ joinSlash path.parts := by
  rw [toText, if_neg (fun both => some both.2)]

theorem Proper.components_toText {path : Path} (h : path.Proper)
    (some : path.parts ≠ []) :
    Tree.components path.toText = path.parts := by
  rw [toText_eq some]
  exact Tree.components_joinSlash some h.part _

theorem Proper.origin_toText {path : Path} (h : path.Proper)
    (some : path.parts ≠ []) (base : Place) :
    Tree.origin base path.toText = if path.slashes = 0 then base else [] := by
  obtain ⟨part, parts, shape⟩ := List.exists_cons_of_ne_nil some
  obtain ⟨nonempty, noSlash⟩ := h.part part (by simp [shape])
  obtain ⟨c, rest, rfl⟩ := List.exists_cons_of_ne_nil nonempty
  have notSlash : c ≠ '/' := by
    rintro rfl
    exact noSlash (by simp)
  rw [Tree.origin, toText_eq some, shape]
  cases path.slashes with
  | zero => cases parts <;> simp [joinSlash, notSlash]
  | succ slashes => simp [List.replicate_succ]

/-- The names of the one path lead on to the other one. -/
structure LiesAbove (above path : Path) : Prop where
  slashes : above.slashes = path.slashes
  ahead : ∃ back, path.parts = above.parts ++ back ∧ (above.parts ≠ [] → back ≠ [])

theorem parent_liesAbove (path : Path) : path.parent.LiesAbove path := by
  refine ⟨rfl, path.parts.drop path.parent.parts.length, ?_, fun named ended => ?_⟩
  · rw [parent, List.dropLast_eq_take, List.length_take]
    simp
  · rw [parent, List.length_dropLast, List.drop_eq_nil_iff] at ended
    rw [parent, ← List.length_pos_iff, List.length_dropLast] at named
    omega

theorem LiesAbove.parent {above path : Path} (h : above.LiesAbove path) :
    above.parent.LiesAbove path := by
  obtain ⟨slashes, back, shape, more⟩ := h
  obtain ⟨-, between, shape', more'⟩ := above.parent_liesAbove
  exact ⟨slashes, between ++ back, by rw [shape, shape', List.append_assoc],
    fun named => by simp [more' named]⟩

end Path

namespace Tree

variable {tree after : Tree} {ending : Ending} {path : Path} {spot : Spot}

/-- Where the names of a path start from. -/
def start (tree : Tree) (path : Path) : Place :=
  if path.slashes = 0 then tree.here else []

theorem locate_of_proper (proper : path.Proper) (some : path.parts ≠ []) :
    tree.locate ending path =
      if path.hasNul then .error .embeddedNul
      else if maxPath < Utf8.size path.toText then .error (.system .nameTooLong)
      else (tree.walk ending maxLinks (tree.start path) path.parts).mapError
        .system := by
  rw [locate, proper.components_toText some, proper.origin_toText some]
  rfl

theorem components_slashes (slashes : Nat) :
    components (List.replicate slashes '/' ++ joinSlash []) = [] := by
  rw [components, splitSlash_replicate]
  simp [joinSlash, splitSlash]

theorem origin_slashes (base : Place) (slashes : Nat) (text : Text) :
    origin base (List.replicate (slashes + 1) '/' ++ text) = [] := by
  simp [origin, List.replicate_succ]

private theorem parts_ne_nil {unused : Place}
    (h : tree.locate ending path = .ok ⟨unused, none⟩) :
    path.parts ≠ [] := by
  intro noParts
  obtain ⟨-, -, led⟩ := locate_eq_ok_iff.1 h
  rw [Path.toText, noParts] at led
  generalize last : Spot.mk unused none = spot at led
  cases slashes : path.slashes with
  | zero =>
      rw [slashes] at led
      obtain ⟨directory, rest⟩ := Leads.of_dot led
      cases rest
      rw [isDirectoryAt, ← (Spot.mk.inj last).2] at directory
      simp at directory
  | succ slashes' =>
      rw [slashes, if_neg (by simp), components_slashes, origin_slashes] at led
      cases led
      exact tree.get?_root (Spot.mk.inj last).2.symm

/-! ## Trees and paths that stay in order -/

/-- Nothing lies below a place where nothing is. -/
def Closed (tree : Tree) : Prop :=
  ∀ place name, tree.get? place = none → tree.get? (place ++ [name]) = none

/-- Behind a directory that is missing, a path has only names, and none that is
too long. -/
def Direct (tree : Tree) (path : Path) : Prop :=
  ∀ front back unused, path.parts = front ++ back →
    tree.locate .keep ⟨path.slashes, front⟩ = .ok ⟨unused, none⟩ →
    ∀ name ∈ back, name ≠ ['.', '.'] ∧ Utf8.size name ≤ maxName

/-- A tree in which a path can be written to and looked up. -/
structure Admits (tree : Tree) (path : Path) : Prop where
  grounded : tree.Grounded
  closed : tree.Closed
  direct : tree.Direct path

/-- Nothing is found where a path leads. -/
def Missing (tree : Tree) (path : Path) : Prop :=
  tree.stat path ∈ [.error (.system .noEntry), .error (.system .notDirectory),
    .error .embeddedNul]

section

variable {place : Place} {names : List Text} {links : Nat}

theorem Closed.dropLast (closed : tree.Closed) (there : tree.get? place ≠ none) :
    tree.get? place.dropLast ≠ none := by
  rcases List.eq_nil_or_concat place with rfl | ⟨front, name, rfl⟩
  · exact there
  · rw [List.concat_eq_append] at there ⊢
    rw [List.dropLast_concat]
    exact fun absent => there (closed front name absent)

/-- What a walk leads to lies in something that exists. -/
theorem Leads.parent (closed : tree.Closed) (there : tree.get? place ≠ none)
    (h : Leads tree ending links place names spot) :
    tree.get? spot.place.dropLast ≠ none := by
  have exists_of_directory {place : Place} (h : tree.isDirectoryAt place = true) :
      tree.get? place ≠ none := by
    intro absent
    simp [isDirectoryAt, absent] at h
  induction h with
  | stay => exact closed.dropLast there
  | empty _ _ ih => exact ih there
  | dot _ _ _ ih => exact ih there
  | up _ _ _ ih => exact ih (closed.dropLast there)
  | absent enters _ =>
      rw [List.dropLast_concat]
      exact there
  | kept enters _ _ =>
      rw [List.dropLast_concat]
      exact there
  | link _ _ _ _ _ ih =>
      refine ih ?_
      unfold origin
      split
      · exact tree.get?_root
      · exact there
  | next _ found _ _ ih => exact ih (by simp [found])

theorem Closed.puts {entry : Entry} (closed : tree.Closed)
    (puts : tree.Puts place entry after)
    (parent : tree.get? place.dropLast ≠ none) : after.Closed := by
  intro other name absent
  rw [puts.get?_eq] at absent ⊢
  split at absent
  next => simp at absent
  next =>
    split
    next same =>
      rw [← same, List.dropLast_concat] at parent
      exact absurd absent parent
    next => exact closed other name absent

end

/-! ## Directories on the way -/

private theorem Grounded.here_ne_none (grounded : tree.Grounded) :
    tree.get? tree.here ≠ none := by
  intro absent
  have directory := grounded.directories tree.here (List.prefix_refl _)
  simp [isDirectoryAt, absent] at directory

private theorem Grounded.start_ne_none (grounded : tree.Grounded) (path : Path) :
    tree.get? (tree.start path) ≠ none := by
  unfold start
  split
  · exact grounded.here_ne_none
  · exact tree.get?_root

private theorem Grounded.grow (grounded : tree.Grounded)
    (within : tree.Within after) (here : after.here = tree.here) :
    after.Grounded := by
  refine ⟨?_, fun before ahead =>
    within.isDirectoryAt (grounded.directories before (here ▸ ahead))⟩
  unfold Named
  rw [here]
  exact grounded.named

private theorem leads_front {front : List Text} {unused : Place}
    (proper : path.Proper) (sub : front ⊆ path.parts)
    (found : tree.locate .keep ⟨path.slashes, front⟩ = .ok ⟨unused, none⟩) :
    Leads tree .keep maxLinks (tree.start path) front ⟨unused, none⟩ := by
  have proper' : Path.Proper ⟨path.slashes, front⟩ := fun part mem =>
    proper part (sub mem)
  obtain ⟨-, -, led⟩ := locate_eq_ok_iff.1 found
  rwa [proper'.components_toText (parts_ne_nil found),
    proper'.origin_toText (parts_ne_nil found)] at led

/-- Whether a path is missing is seen by walking it, if it is not too long. -/
private theorem Missing.of_walk (proper : path.Proper) (some : path.parts ≠ [])
    (missing : tree.Missing path) (here : after.here = tree.here)
    (walked : (∃ place, after.walk .follow maxLinks (tree.start path) path.parts =
      .ok ⟨place, none⟩) ∨ after.walk .follow maxLinks (tree.start path)
      path.parts = .error .noEntry) :
    after.Missing path := by
  have start : after.start path = tree.start path := by
    rw [Tree.start, here]
    rfl
  rw [Missing, stat, locate_of_proper proper some] at missing ⊢
  by_cases nul : path.hasNul = true
  · rw [if_pos nul]
    simp
  · rw [if_neg nul] at missing ⊢
    by_cases long : maxPath < Utf8.size path.toText
    · rw [if_pos long] at missing
      simp at missing
    · rw [if_neg long, start]
      rcases walked with ⟨place, walked⟩ | walked
      · rw [walked]
        simp
      · rw [walked]
        simp

section Made

variable {front back : List Text} {unused : Place}

private theorem enters_made {name : Text} (isPart : Path.isPart name = true)
    (notUp : name ≠ ['.', '.']) (short : Utf8.size name ≤ maxName)
    (rest : List Text) :
    (tree.set unused newDirectory).Enters .follow unused name rest := by
  have put : (tree.set unused newDirectory).get? unused = some newDirectory := by
    rw [get?_set, if_pos rfl]
  refine ⟨?_, ?_, ⟨?_, ?_, notUp⟩, by simp, short⟩
  · rw [isDirectoryAt, put]
    rfl
  · rw [permits, put]
    rfl
  · rintro rfl
    exact absurd isPart (by decide)
  · rintro rfl
    exact absurd isPart (by decide)

/-- What lies behind a directory that is made is missing as before. -/
private theorem Admits.missing_made (admits : tree.Admits path)
    (proper : path.Proper) (shape : path.parts = front ++ back)
    (more : back ≠ [])
    (found : tree.locate .keep ⟨path.slashes, front⟩ = .ok ⟨unused, none⟩)
    (missing : tree.Missing path) :
    (tree.set unused newDirectory).Missing path := by
  have led := leads_front proper (by simp [shape]) found
  obtain ⟨links, walked⟩ :=
    led.created.walk_append (by simp) more (show Ending.follow ≠ .create by simp)
  obtain ⟨name, rest, rfl⟩ := List.exists_cons_of_ne_nil more
  obtain ⟨notUp, short⟩ := admits.direct front _ unused shape found name (by simp)
  have enters : (tree.set unused newDirectory).Enters .follow unused name rest :=
    enters_made (proper name (by simp [shape])).1 notUp short rest
  have absent : (tree.set unused newDirectory).get? (unused ++ [name]) = none := by
    rw [get?_set, if_neg (by simp)]
    exact admits.closed unused name led.found?_eq.symm
  rw [enters.walk_eq, absent, ← shape] at walked
  refine missing.of_walk proper (by simp [shape]) rfl ?_
  cases rest with
  | nil => exact .inl ⟨_, walked⟩
  | cons next rest => exact .inr walked

theorem Admits.made (admits : tree.Admits path) (proper : path.Proper)
    (shape : path.parts = front ++ back)
    (found : tree.locate .keep ⟨path.slashes, front⟩ = .ok ⟨unused, none⟩) :
    (tree.set unused newDirectory).Admits path := by
  have led := leads_front proper (by simp [shape]) found
  have absent : tree.get? unused = none := led.found?_eq.symm
  refine ⟨admits.grounded.grow (.set absent _) rfl, ?_, ?_⟩
  · exact admits.closed.puts ⟨fun other => tree.get?_set _ _ _, rfl⟩
      (led.parent admits.closed (admits.grounded.start_ne_none path))
  · intro front' back' unused' shape' found' name mem
    rcases List.append_eq_append_iff.1 (shape.symm.trans shape') with
      ⟨between, rfl, rfl⟩ | ⟨between, rfl, rfl⟩
    · exact admits.direct front _ unused shape found name (by simp [mem])
    · -- A path that leads through nothing does not lead to the new directory.
      have led' := leads_front proper (by simp [shape']) found'
      by_cases last : between = []
      · subst last
        exact admits.direct _ _ unused shape found name (by simpa using mem)
      · have walked := led.created.walk_eq
        rcases led'.walk_behind last (show Ending.follow ≠ .create by simp) with
          failed | failed
        · exact absurd (walked.symm.trans failed) (by simp)
        · exact absurd (walked.symm.trans failed) (by simp)

end Made

theorem Admits.makeDirectory {above : Path} (admits : tree.Admits path)
    (proper : path.Proper) (ahead : above.LiesAbove path)
    (made : tree.makeDirectory above = (.ok (), after)) :
    after.Admits path ∧ (tree.Missing path → after.Missing path) := by
  rcases tree.makeDirectory_cases above with ⟨failure, failed⟩ |
    ⟨unused, found, made'⟩
  · simp [failed] at made
  · obtain rfl : tree.set unused newDirectory = after :=
      congrArg Prod.snd (made'.symm.trans made)
    obtain ⟨slashes, front⟩ := above
    obtain ⟨rfl, back, shape, more⟩ := ahead
    exact ⟨admits.made proper shape found,
      admits.missing_made proper shape (more (parts_ne_nil found)) found⟩

/-- A file is as missing as before when directories are made on the way to it. -/
theorem Admits.makeDirectories {above : Path} (admits : tree.Admits path)
    (proper : path.Proper) (ahead : above.LiesAbove path) :
    (tree.makeDirectories above).2.Admits path ∧
      (tree.Missing path → (tree.makeDirectories above).2.Missing path) := by
  fun_induction Tree.makeDirectories tree above with
  | case1 above after made => exact admits.makeDirectory proper ahead made
  | case2 => exact ⟨admits, id⟩
  | case3 above _ _ _ failure after failed ih =>
      rw [failed] at ih
      exact ih ahead.parent
  | case4 above _ _ _ after made after' made' ih =>
      rw [made] at ih
      obtain ⟨admits', missing⟩ := ih ahead.parent
      obtain ⟨admits'', missing'⟩ := admits'.makeDirectory proper ahead made'
      exact ⟨admits'', missing' ∘ missing⟩
  | case5 above _ _ _ after made failure _ failed ih =>
      rw [made] at ih
      rw [acceptDirectory_snd]
      exact ih ahead.parent
  | case6 above failure =>
      rw [acceptDirectory_snd]
      exact ⟨admits, id⟩

/-! ## A temporary file -/

/-- Trees that differ in files only refuse the same walks. -/
theorem Alike.walk_error {links : Nat} {place : Place} {names : List Text}
    {error : SystemError} (h : Alike tree after)
    (failed : tree.walk ending links place names = .error error)
    (found : error ≠ .noEntry) (directory : error ≠ .notDirectory) :
    after.walk ending links place names = .error error := by
  have search' {place : Place} {granted : Bool}
      (there : tree.isDirectoryAt place = true)
      (h' : tree.permits place .search = granted) : after.permits place .search =
        granted :=
    (h.permits there .search).trans h'
  induction links, place, names using walk_induction tree ending with
  | stay => simp [walk] at failed
  | notDirectory _ _ _ _ notDirectory =>
      rw [walk_notDirectory notDirectory] at failed
      exact absurd (Except.error.inj failed).symm directory
  | empty _ _ _ there ih =>
      rw [walk_empty there] at failed
      rw [walk_empty (h.isDirectoryAt there), ih failed]
  | noSearch _ _ _ _ there nonempty search =>
      rw [walk_noSearch there nonempty search] at failed
      rw [walk_noSearch (h.isDirectoryAt there) nonempty (search' there search),
        failed]
  | dot _ _ _ there search ih =>
      rw [walk_dot there search] at failed
      rw [walk_dot (h.isDirectoryAt there) (search' there search), ih failed]
  | up _ _ _ there search ih =>
      rw [walk_up there search] at failed
      rw [walk_up (h.isDirectoryAt there) (search' there search), ih failed]
  | slash _ _ _ _ there search proper slash =>
      rw [walk_slash there search proper slash] at failed
      rw [walk_slash (h.isDirectoryAt there) (search' there search) proper slash,
        failed]
  | long _ _ _ _ there search proper noSlash long =>
      rw [walk_long there search proper noSlash long] at failed
      rw [walk_long (h.isDirectoryAt there) (search' there search) proper
        noSlash long, failed]
  | enters links place name names enters fewer shorter =>
      rcases tree.get?_cases (place ++ [name]) with absent | ⟨target, there⟩ |
        ⟨entry, there, notLink⟩
      · rw [enters.walk_eq, absent] at failed
        dsimp only at failed
        split at failed
        · simp at failed
        · exact absurd (Except.error.inj failed).symm found
      · rw [enters.walk_eq, there] at failed
        rw [(h.enters enters).walk_eq, (h.get?_iff _ _ rfl).2 there]
        dsimp only at failed ⊢
        split at failed
        next => simp at failed
        next notKept =>
          rw [if_neg notKept]
          split at failed
          next => exact absurd (Except.error.inj failed).symm found
          next more =>
            rw [if_neg more]
            cases links with
            | zero => exact failed
            | succ links => exact fewer _ _ _ (Nat.lt_succ_self links) failed
      · rw [enters.walk_next there notLink] at failed
        cases isFile : entry.isFile with
        | false =>
            rw [(h.enters enters).walk_next ((h.get?_iff _ _ isFile).2 there)
              notLink]
            exact shorter _ failed
        | true =>
            -- Behind a file a walk stops because it is no directory.
            cases names with
            | nil => simp [walk] at failed
            | cons next names =>
                have notDirectory : tree.isDirectoryAt (place ++ [name]) =
                    false := by
                  cases entry <;> simp_all [Tree.isDirectoryAt, Entry.isDirectory,
                    Entry.isFile]
                rw [walk_notDirectory notDirectory] at failed
                exact absurd (Except.error.inj failed).symm directory

theorem Alike.stat_error {error : SystemError} (h : Alike tree after)
    (failed : tree.stat path = .error (.system error))
    (found : error ≠ .noEntry) (directory : error ≠ .notDirectory) :
    after.stat path = .error (.system error) := by
  have located : tree.locate .follow path = .error (.system error) := by
    unfold stat at failed
    rcases bind_eq_error_iff.1 failed with located | ⟨spot, -, absent⟩
    · exact located
    · cases there : spot.found? with
      | none =>
          rw [there] at absent
          cases absent
          exact absurd rfl found
      | some entry =>
          rw [there] at absent
          simp [pure, Except.pure] at absent
  have located' : after.locate .follow path = .error (.system error) := by
    unfold locate at located ⊢
    split
    next nul => simp [nul] at located
    next noNul =>
      rw [if_neg noNul] at located
      split
      next long => rwa [if_pos long] at located
      next short =>
        rw [if_neg short] at located
        cases walked : tree.walk .follow maxLinks (origin tree.here path.toText)
            (components path.toText) with
        | ok spot => simp [walked] at located
        | error error' =>
            rw [walked] at located
            cases located
            rw [h.here, h.walk_error walked found directory]
            rfl
  rw [stat, located']
  rfl

/-- A temporary file makes nothing of a missing path, unless a link leads from
the path to it. -/
theorem missing_of_temporary {temp : Place} {content : ByteArray} {mode : Nat}
    (unused : tree.get? temp = none) (missing : tree.Missing path) :
    (tree.set temp (.file content mode)).Missing path ∨
      (tree.set temp (.file content mode)).locate .follow path =
        .ok ⟨temp, some (.file content mode)⟩ := by
  have alike := Alike.set_file unused content mode
  generalize grown : tree.set temp (.file content mode) = after at alike
  have get? (place : Place) : after.get? place =
      if place = temp then some (.file content mode) else tree.get? place := by
    rw [← grown, get?_set]
  cases located : after.locate .follow path with
  | ok spot =>
      have before := alike.symm.locate_eq located
      have absent : tree.get? spot.place = none := by
        rw [Missing, stat, before, ok_bind] at missing
        cases there : tree.get? spot.place with
        | none => rfl
        | some entry => simp [there, pure, Except.pure] at missing
      have found := locate_found? located
      rw [get?] at found
      split at found
      next same => exact .inr (by rw [← found, ← same])
      next =>
        left
        rw [Missing, stat, located, ok_bind, found, absent]
        simp
  | error failure =>
      left
      have failed : after.stat path = .error failure := by
        rw [stat, located]
        rfl
      rw [Missing, failed]
      rcases stat_error failed with rfl | ⟨error, rfl, kind⟩
      · simp
      · refine Classical.byContradiction fun other => ?_
        have same : tree.stat path = .error (.system error) :=
          alike.symm.stat_error failed (by rintro rfl; simp at other)
          (by rintro rfl; simp at other)
        rw [Missing, same] at missing
        exact other missing

theorem Admits.temporary {temp : Place} {content : ByteArray} {mode : Nat}
    (admits : tree.Admits path) (unused : tree.get? temp = none)
    (parent : tree.get? temp.dropLast ≠ none) :
    (tree.set temp (.file content mode)).Admits path := by
  refine ⟨admits.grounded.grow (.set unused _) rfl,
    admits.closed.puts ⟨fun other => tree.get?_set _ _ _, rfl⟩ parent, ?_⟩
  intro front back place shape found
  have alike := Alike.set_file unused content mode
  have before := alike.symm.locate_eq found
  have absent := locate_found? found
  rw [get?_set] at absent
  split at absent
  next => simp at absent
  next =>
    rw [← absent] at before
    exact admits.direct front back place shape before

/-! ## A file that is written -/

theorem ne_none_of_canChange {place : Place} (h : tree.canChange place = true) :
    tree.get? place.dropLast ≠ none := by
  intro absent
  simp [canChange, permits, absent] at h

theorem direct_of_locate {place : Place} {entry : Entry} (proper : path.Proper)
    (located : tree.locate .follow path = .ok ⟨place, some entry⟩) :
    tree.Direct path := by
  intro front back unused shape found name mem
  have more : back ≠ [] := by
    rintro rfl
    simp at mem
  have led := leads_front proper (by simp [shape]) found
  rw [locate_of_proper proper (by simp [shape, more])] at located
  split at located
  · simp at located
  · split at located
    · simp at located
    · rw [shape] at located
      rcases led.walk_behind more (show Ending.follow ≠ .create by simp) with
        failed | failed
      · rw [failed] at located
        simp at located
      · rw [failed] at located
        simp at located

theorem Admits.put {content : ByteArray} {mode : Nat}
    (admits : tree.Admits path) (proper : path.Proper)
    (kept : tree.locate .keep path = .ok spot)
    (notDirectory : tree.isDirectoryAt spot.place = false)
    (puts : tree.Puts spot.place (.file content mode) after)
    (located : after.locate .follow path =
      .ok ⟨spot.place, some (.file content mode)⟩) :
    after.Admits path := by
  refine ⟨⟨?_, fun before ahead => ?_⟩, ?_, direct_of_locate proper located⟩
  · unfold Named
    rw [puts.here]
    exact admits.grounded.named
  · have directory := admits.grounded.directories before (puts.here ▸ ahead)
    have apart : before ≠ spot.place := by
      rintro rfl
      simp [directory] at notDirectory
    rwa [isDirectoryAt, puts.get?_eq, if_neg apart]
  · obtain ⟨-, -, led⟩ := locate_eq_ok_iff.1 kept
    refine admits.closed.puts puts (led.parent admits.closed ?_)
    unfold origin
    split
    · exact tree.get?_root
    · exact admits.grounded.here_ne_none

end Tree

end Showcase.Files

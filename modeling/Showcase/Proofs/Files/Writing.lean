import Showcase.Proofs.Files.Storage

/-!
# Whatever a write does

A write either leaves the tree as it was, or leaves an empty temporary file
behind, or puts a file at the place that its path leads to
(`writeAtomic_cases`).
-/

namespace Showcase.Files

/-! ## Paths as they are read -/

/-- The parts of a path that was read from a text. -/
def Path.Proper (path : Path) : Prop :=
  ∀ part ∈ path.parts, Path.isPart part = true ∧ '/' ∉ part

theorem not_mem_splitSlash (text : Text) :
    ∀ part ∈ splitSlash text, '/' ∉ part := by
  fun_induction splitSlash text with
  | case1 => simp
  | case2 rest ih => simpa using ih
  | case3 c rest notSlash none ih => simpa using Ne.symm notSlash
  | case4 c rest notSlash part parts shape ih =>
      rw [shape] at ih
      intro other mem
      rcases List.mem_cons.1 mem with rfl | mem
      · simpa [Ne.symm notSlash] using ih part (by simp)
      · exact ih other (by simp [mem])

theorem Path.proper_parse (text : Text) : (Path.parse text).Proper := by
  intro part mem
  obtain ⟨mem, isPart⟩ := List.mem_filter.1 mem
  exact ⟨isPart, not_mem_splitSlash text part mem⟩

theorem Path.Proper.join {path path' : Path} (h : path.Proper) (h' : path'.Proper) :
    (path.join path').Proper := by
  unfold Path.join
  split
  · intro part mem
    rcases List.mem_append.1 mem with mem | mem
    · exact h part mem
    · exact h' part mem
  · exact h'

theorem Path.Proper.parent {path : Path} (h : path.Proper) : path.parent.Proper :=
  fun part mem => h part (List.dropLast_subset _ mem)

theorem isName_iff {name : Text} :
    isName name = true ↔
      Path.isPart name = true ∧ name ≠ ['.', '.'] ∧ '/' ∉ name ∧ '\x00' ∉ name := by
  simp [isName, and_assoc]

theorem Path.proper_of_names {path : Path}
    (h : ∀ name ∈ path.parts, isName name = true ∨ name = ['.', '.']) :
    path.Proper ∧ path.hasNul = false := by
  refine ⟨fun name mem => ?_, ?_⟩
  · rcases h name mem with isName' | rfl
    · exact ⟨(isName_iff.1 isName').1, (isName_iff.1 isName').2.2.1⟩
    · decide
  · rw [hasNul, List.any_eq_false]
    intro name mem
    rcases h name mem with isName' | rfl
    · simpa using (isName_iff.1 isName').2.2.2
    · decide

private theorem isName_of_mem_normalize {names : List Text}
    (h : ∀ name ∈ names, '/' ∉ name ∧ '\x00' ∉ name) :
    ∀ name ∈ normalize names, isName name = true := by
  suffices folded : ∀ place : Place, (∀ name ∈ place, isName name = true) →
      ∀ name ∈ names.foldl (fun place name =>
        if name = ['.', '.'] then place.dropLast
        else if Path.isPart name then place ++ [name]
        else place) place, isName name = true from folded [] (by simp)
  induction names with
  | nil => exact fun place named => named
  | cons name names ih =>
      intro place named
      refine ih (fun other mem => h other (by simp [mem])) _ ?_
      dsimp only
      split
      · exact fun other mem => named other (List.dropLast_subset _ mem)
      · split
        next notUp isPart =>
          intro other mem
          rcases List.mem_append.1 mem with mem | mem
          · exact named other mem
          · obtain rfl := List.mem_singleton.1 mem
            exact isName_iff.2 ⟨isPart, notUp, h other (by simp)⟩
        next => exact named

namespace Tree

/-- The directory that relative paths start from has a proper name. -/
def Named (tree : Tree) : Prop := ∀ name ∈ tree.here, isName name = true

/-- The directory that relative paths start from is one, and so are all above it. -/
structure Grounded (tree : Tree) : Prop where
  named : tree.Named
  directories : ∀ before, before <+: tree.here → tree.isDirectoryAt before = true

theorem isName_of_mem_temporaryDirectory {tree : Tree} {path : Path}
    (named : tree.Named) (proper : path.Proper) (noNul : path.hasNul = false) :
    ∀ name ∈ tree.temporaryDirectory path, isName name = true := by
  refine isName_of_mem_normalize fun name mem => ?_
  rcases List.mem_append.1 mem with mem | mem
  · split at mem
    · exact (isName_iff.1 (named name mem)).2.2
    · simp at mem
  · have mem := List.dropLast_subset _ mem
    refine ⟨(proper name mem).2, ?_⟩
    simp only [Path.hasNul, List.any_eq_false] at noNul
    simpa using noNul name mem

private theorem isName_temporaryName {name : Text} (noSlash : '/' ∉ name)
    (noNul : '\x00' ∉ name) (n : Nat) :
    isName (temporaryName name n) = true := by
  have digits (c : Char) (notDigit : c.isDigit = false) :
      c ∉ Nat.toDigits 10 n := by
    intro mem
    have := Nat.isDigit_of_mem_toDigits (by omega) (by omega) mem
    simp [notDigit] at this
  refine isName_iff.2 ⟨?_, ?_, ?_, ?_⟩
  · simp [Path.isPart, temporaryName]
  · intro same
    have := congrArg List.length same
    simp [temporaryName] at this
    omega
  · simp [temporaryName, noSlash, digits '/' (by decide), List.mem_replicate]
  · simp [temporaryName, noNul, digits '\x00' (by decide), List.mem_replicate]

theorem isName_temporaryName_name {path : Path} (proper : path.Proper)
    (noNul : path.hasNul = false) (n : Nat) :
    isName (temporaryName path.name n) = true := by
  cases name : path.parts.getLast? with
  | none => exact isName_temporaryName (by simp [Path.name, name]) (by
      simp [Path.name, name]) n
  | some part =>
      have mem := List.mem_of_getLast? name
      simp only [Path.hasNul, List.any_eq_false] at noNul
      refine isName_temporaryName ?_ ?_ n
      · simpa [Path.name, name] using (proper part mem).2
      · simpa [Path.name, name] using noNul part mem

/-! ## The temporary file -/

section

variable {tree : Tree} {links : Nat} {place : Place} {names : List Text}
  {name : Text} {spot spot' : Spot}

/-- Behind a name that is not in use, a walk ends in the directory where the
name would be. -/
private theorem Leads.eq_of_unused (h : Leads tree .follow links place names spot)
    (proper : name ≠ [] ∧ name ≠ ['.'] ∧ name ≠ ['.', '.'])
    (unused : tree.get? (spot.place ++ [name]) = none)
    (found : tree.walk .keep links place (names ++ [name]) = .ok spot') :
    spot' = ⟨spot.place ++ [name], none⟩ := by
  obtain ⟨nonempty, notDot, notUp⟩ := proper
  cases there : spot.found? with
  | none =>
      obtain ⟨place', found?⟩ := spot
      obtain rfl : found? = none := there
      rcases h.walk_behind (List.cons_ne_nil name []) (show Ending.keep ≠
        .create by simp) with
        failed | failed
      · simp [failed] at found
      · simp [failed] at found
  | some entry =>
      obtain ⟨links', same⟩ :=
        h.walk_append (by simp [there]) (List.cons_ne_nil name [])
        (show Ending.keep ≠ .create by simp)
      rw [same] at found
      cases leads_of_walk found with
      | empty => exact absurd rfl nonempty
      | dot => exact absurd rfl notDot
      | up => exact absurd rfl notUp
      | absent => rfl
      | kept _ _ there => exact absurd (unused.symm.trans there) (by simp)
      | link _ there => exact absurd (unused.symm.trans there) (by simp)
      | next _ there => exact absurd (unused.symm.trans there) (by simp)

end

/-- The place of a temporary file for a path: a name that is not in use, in the
directory of the path. -/
structure Beside (tree : Tree) (path : Path) (temp : Place) : Prop where
  unused : tree.get? temp = none
  directory : ∃ found?,
    tree.locate .follow (Path.ofPlace (tree.temporaryDirectory path)) =
      .ok ⟨temp.dropLast, found?⟩
  name : ∃ n, temp = temp.dropLast ++ [temporaryName path.name n]

theorem beside_of_createTemporary {tree created : Tree} {path : Path} {temp : Place}
    (named : tree.Named) (proper : path.Proper)
    (h : tree.createTemporary path = .ok (temp, created)) :
    tree.Beside path temp ∧
      created = tree.set temp (.file ByteArray.empty 0o600) := by
  unfold createTemporary at h
  split at h
  next => simp at h
  next noNul =>
    have noNul : path.hasNul = false := by simpa using noNul
    obtain ⟨directory, found, rest⟩ := bind_eq_ok_iff.1 h
    obtain ⟨spot, found', rest⟩ := bind_eq_ok_iff.1 rest
    obtain ⟨n, -, fresh, unused⟩ := tree.exists_freshName directory.place path.name
    rw [fresh] at found'
    have named' := isName_of_mem_temporaryDirectory named proper noNul
    have last := isName_temporaryName_name proper noNul n
    have led := ((locate_ofPlace_iff named').1 found).2
    have led' := ((locate_ofPlace_iff (List.forall_mem_append.2
      ⟨named', List.forall_mem_singleton.2 last⟩)).1 found').2
    obtain rfl := led.eq_of_unused (proper_of_isName last) unused led'.walk_eq
    dsimp only at rest
    split at rest
    next =>
      cases rest
      exact ⟨⟨unused, ⟨directory.found?, by rw [List.dropLast_concat]; exact found⟩,
        ⟨n, by rw [List.dropLast_concat]⟩⟩, rfl⟩
    next => simp at rest

theorem canChange_of_createTemporary {tree created : Tree} {path : Path}
    {temp : Place} (h : tree.createTemporary path = .ok (temp, created)) :
    tree.canChange temp = true := by
  unfold createTemporary at h
  split at h
  · simp at h
  · obtain ⟨directory, -, rest⟩ := bind_eq_ok_iff.1 h
    obtain ⟨spot, -, rest⟩ := bind_eq_ok_iff.1 rest
    split at rest
    next permitted =>
      cases rest
      exact permitted
    next => simp at rest

/-! ## The outcomes of a write -/

/-- The tree `after` holds an entry at a place and is `tree` everywhere else. -/
structure Puts (tree : Tree) (place : Place) (entry : Entry) (after : Tree) :
    Prop where
  get?_eq : ∀ other, after.get? other = if other = place then some entry
  else tree.get? other
  here : after.here = tree.here

theorem erase_eq_of_unused {tree : Tree} {place : Place}
    (h : tree.get? place = none) :
    tree.erase place = tree := by
  have unlisted : tree.entries.filter (·.1 ≠ place) = tree.entries := by
    rw [List.filter_eq_self]
    rintro ⟨other, entry⟩ mem
    refine decide_eq_true ?_
    rintro rfl
    unfold get? at h
    cases found : tree.entries.lookup other with
    | none =>
        have := List.lookup_eq_none_iff.1 found _ mem
        simp at this
    | some entry => simp [found] at h
  simp only [erase, unlisted]

private theorem erase_set_of_unused {tree : Tree} {place : Place}
    (h : tree.get? place = none) (entry : Entry) :
    (tree.set place entry).erase place = tree := by
  rw [erase_set, erase_eq_of_unused h]

theorem isDirectoryAt_of_target {tree : Tree} {target : Spot} {path : Path}
    {ending : Ending} (leads : tree.locate ending path = .ok target)
    (notDirectory : (target.found?.map Entry.isDirectory).getD false = false) :
    tree.isDirectoryAt target.place = false := by
  rw [locate_found? leads] at notDirectory
  unfold isDirectoryAt
  cases there : tree.get? target.place with
  | none => rfl
  | some entry => simpa [there] using notDirectory

private theorem moveTo_cases (tree : Tree) (place : Place) (path : Path) :
    (∃ failure, tree.moveTo place path = (.error failure, tree)) ∨
      ∃ target entry, tree.locate .keep path = .ok target ∧
        (target.found?.map Entry.isDirectory).getD false = false ∧
        tree.get? place = some entry ∧
        tree.moveTo place path =
          (.ok (), (tree.erase place).set target.place entry) := by
  unfold moveTo
  cases tree.locate .keep path with
  | error failure => exact .inl ⟨failure, rfl⟩
  | ok target =>
      dsimp only
      split
      · exact .inl ⟨_, rfl⟩
      · split
        · exact .inl ⟨_, rfl⟩
        next notDirectory =>
          cases there : tree.get? place with
          | none => exact .inl ⟨_, rfl⟩
          | some entry =>
              exact .inr ⟨target, entry, rfl, by simpa using notDirectory, rfl, rfl⟩

private theorem modeFor_of_stat {tree : Tree} {path : Path} {entry : Entry}
    {mode : Nat} (found : tree.stat path = .ok entry)
    (h : tree.modeFor path = .ok mode) : mode = entry.mode := by
  simp only [modeFor, doesExist, test, found, ok_bind, if_true] at h
  cases h
  rfl

theorem Alike.stat_eq {tree tree' : Tree} (h : Alike tree tree') {path : Path}
    {entry : Entry} (found : tree.stat path = .ok entry) :
    ∃ spot, tree.locate .follow path = .ok spot ∧
      tree.get? spot.place = some entry ∧
      (∀ entry', tree'.get? spot.place = some entry' →
        tree'.stat path = .ok entry') := by
  unfold stat at found
  obtain ⟨spot, located, rest⟩ := bind_eq_ok_iff.1 found
  have there := locate_found? located
  refine ⟨spot, located, ?_, fun entry' found' => ?_⟩
  · rw [← there]
    cases content : spot.found? with
    | none => simp [content] at rest
    | some entry' =>
        rw [content] at rest
        cases rest
        rfl
  · rw [stat, h.locate_eq located, ok_bind, found']
    rfl

private theorem test_of_stat_error {tree : Tree} {path : Path} {failure : Failure}
    (h : tree.stat path = .error failure) (p : Entry → Bool) :
    tree.test p path = .ok false ∨
      ∃ failure', tree.test p path = .error failure' := by
  rw [test, h]
  split
  next found => simp at found
  all_goals simp

theorem modeFor_cases {tree : Tree} {path : Path} {temp : Place} {mode : Nat}
    (unused : tree.get? temp = none)
    (h : (tree.set temp (.file ByteArray.empty 0o600)).modeFor path = .ok mode) :
    (∃ entry, tree.stat path = .ok entry ∧ mode = entry.mode) ∨
      (∀ entry, tree.stat path ≠ .ok entry) ∧ mode = 0o600 := by
  have alike := Alike.set_file unused ByteArray.empty 0o600
  cases found : tree.stat path with
  | ok entry =>
      obtain ⟨spot, -, there, stat⟩ := alike.stat_eq found
      refine .inl ⟨entry, rfl, modeFor_of_stat (stat entry ?_) h⟩
      rw [get?_set, if_neg, there]
      rintro rfl
      simp [unused] at there
  | error failure =>
      refine .inr ⟨by simp, ?_⟩
      cases found' : (tree.set temp (.file ByteArray.empty 0o600)).stat path with
      | ok entry =>
          obtain ⟨spot, -, there, stat⟩ := alike.symm.stat_eq found'
          rw [get?_set] at there
          split at there
          next =>
            obtain rfl := Option.some.inj there
            exact modeFor_of_stat found' h
          next => exact absurd ((stat entry there).symm.trans found) (by simp)
      | error failure' =>
          rcases test_of_stat_error found' (fun _ => true) with
            missing | ⟨failure'', failed⟩
          · rw [modeFor, doesExist, missing, ok_bind] at h
            exact (Except.ok.inj h).symm
          · rw [modeFor, doesExist, failed, error_bind] at h
            simp at h

/-- The steps of a write: a temporary file is made beside the place of its path
and moved there. -/
theorem writeAtomic_steps {tree : Tree} {path : Path} (named : tree.Named)
    (proper : path.Proper) (points : List CodePoint) :
    (∃ failure, tree.writeAtomic path points = (.error failure, tree)) ∨
      ∃ temp, tree.Beside path temp ∧ tree.canChange temp = true ∧
        (scalars? points = none ∧ tree.writeAtomic path points =
            (.error .unencodable, tree.set temp (.file ByteArray.empty 0o600)) ∨
          ∃ text mode target after, scalars? points = some text ∧
            tree.locate .keep path = .ok target ∧
            (target.found?.map Entry.isDirectory).getD false = false ∧
            (tree.set temp (.file ByteArray.empty 0o600)).modeFor path = .ok mode ∧
            tree.writeAtomic path points = (.ok (), after) ∧
            tree.Puts target.place (.file (Utf8.encode text) mode) after) := by
  unfold writeAtomic
  cases created : tree.createTemporary path with
  | error failure => cases failure <;> exact .inl ⟨_, rfl⟩
  | ok made =>
      obtain ⟨temp, created'⟩ := made
      obtain ⟨beside, rfl⟩ := beside_of_createTemporary named proper created
      have unused := beside.unused
      have canChange := canChange_of_createTemporary created
      dsimp only
      cases encoded : scalars? points with
      | none => exact .inr ⟨temp, beside, canChange, .inl ⟨rfl, rfl⟩⟩
      | some text =>
          dsimp only
          cases moded : (tree.set temp (.file ByteArray.empty 0o600)).modeFor
            path with
          | error failure =>
              exact .inl ⟨.storage, by simp [erase_set_of_unused unused]⟩
          | ok mode =>
              dsimp only
              rw [set_set]
              rcases (tree.set temp (.file (Utf8.encode text) mode)).moveTo_cases
                temp path with
                ⟨failure, moved⟩ |
                  ⟨target, entry, found, notDirectory, there, moved⟩
              · exact .inl ⟨.storage, by simp [moved, erase_set_of_unused unused]⟩
              · have alike := (Alike.set_file unused (Utf8.encode text) mode).symm
                have found' := alike.locate_eq found
                have same := locate_found? found
                obtain rfl : .file (Utf8.encode text) mode = entry := by
                  simpa [get?_set] using there
                rw [erase_set_of_unused unused] at moved
                refine .inr ⟨temp, beside, canChange, .inr ⟨text, mode, _,
                  tree.set target.place (.file (Utf8.encode text) mode), rfl,
                  found', ?_, moded,
                  by rw [moved], fun other => tree.get?_set _ _ _, rfl⟩⟩
                by_cases atTemp : target.place = temp
                · simp [atTemp, unused]
                · rwa [same, get?_set, if_neg atTemp] at notDirectory

theorem writeAtomic_cases {tree : Tree} {path : Path} (named : tree.Named)
    (proper : path.Proper) (points : List CodePoint) :
    (∃ failure, tree.writeAtomic path points = (.error failure, tree)) ∨
      (∃ temp, scalars? points = none ∧ tree.Beside path temp ∧
        tree.writeAtomic path points =
          (.error .unencodable, tree.set temp (.file ByteArray.empty 0o600))) ∨
      ∃ text mode target after, scalars? points = some text ∧
        tree.locate .keep path = .ok target ∧
        (target.found?.map Entry.isDirectory).getD false = false ∧
        (∀ entry, tree.stat path = .ok entry → mode = entry.mode) ∧
        tree.writeAtomic path points = (.ok (), after) ∧
        tree.Puts target.place (.file (Utf8.encode text) mode) after := by
  rcases writeAtomic_steps named proper points with
    failed | ⟨temp, beside, -, notText | written⟩
  · exact .inl failed
  · exact .inr (.inl ⟨temp, notText.1, beside, notText.2⟩)
  · obtain ⟨text, mode, target, after, encoded, kept, notDirectory, moded, wrote,
      puts⟩ := written
    refine .inr (.inr ⟨text, mode, target, after, encoded, kept, notDirectory,
      fun entry found => ?_, wrote, puts⟩)
    rcases modeFor_cases beside.unused moded with
      ⟨entry', found', rfl⟩ | ⟨nothing, -⟩
    · rw [Except.ok.inj (found'.symm.trans found)]
    · exact absurd found (nothing entry)

theorem writeText_cases {tree : Tree} {path : Path} (named : tree.Named)
    (proper : path.Proper) (text : Text) :
    (∃ failure, tree.writeText path text = (.error failure, tree)) ∨
      ∃ mode target after, tree.locate .keep path = .ok target ∧
        (target.found?.map Entry.isDirectory).getD false = false ∧
        (∀ entry, tree.stat path = .ok entry → mode = entry.mode) ∧
        tree.writeText path text = (.ok (), after) ∧
        tree.Puts target.place (.file (Utf8.encode text) mode) after := by
  rcases writeAtomic_cases named proper (toPoints text) with
    failed | ⟨temp, encoded, -⟩ | ⟨text', mode, target, after, encoded, rest⟩
  · exact .inl failed
  · simp [scalars?_toPoints] at encoded
  · obtain rfl : text = text' := by simpa [scalars?_toPoints] using encoded
    exact .inr ⟨mode, target, after, rest⟩

theorem exists_puts_of_wrote {tree written : Tree} {path : Path} {entry : Entry}
    {text : Text} (named : tree.Named) (proper : path.Proper)
    (found : tree.stat path = .ok entry)
    (wrote : tree.writeText path text = (.ok (), written)) :
    ∃ target, tree.locate .keep path = .ok target ∧
      tree.Puts target.place (.file (Utf8.encode text) entry.mode) written := by
  rcases writeText_cases named proper text with
    ⟨failure, failed⟩ | ⟨mode, target, written', kept, -, sameMode, wrote', puts⟩
  · simp [wrote] at failed
  · obtain rfl := sameMode entry found
    obtain ⟨-, rfl⟩ := Prod.mk.inj (wrote.symm.trans wrote')
    exact ⟨target, kept, puts⟩

end Tree

end Showcase.Files

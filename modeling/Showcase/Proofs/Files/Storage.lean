import Showcase.Files.Atomic
import Showcase.Proofs.Files.Walk

/-!
# Replaced files

A file that can be replaced holds, after it is written, what was written, and
nothing else in the tree has changed (`Replaceable.writeText_eq`).
-/

namespace Showcase

theorem Utf8.decode?_encode (text : Text) : decode? (encode text) = some text := by
  have same : String.fromUTF8? (encode text) = some (String.ofList text) := by
    rw [encode, String.toUTF8_eq_toByteArray, String.fromUTF8?,
      dif_pos (String.ofList text).isValidUTF8]
    rfl
  rw [decode?, same, Option.map_some, String.toList_ofList]

namespace Utf8

theorem size_append (text text' : Text) :
    size (text ++ text') = size text + size text' := by
  have added (n : Nat) : text'.foldl (fun n c => n + c.utf8Size) n =
      n + size text' := by
    unfold size
    induction text' generalizing n with
    | nil => rfl
    | cons c text' ih =>
        rw [List.foldl_cons, List.foldl_cons, ih, ih (0 + _)]
        omega
  rw [size, List.foldl_append, added]
  rfl

private theorem size_cons (c : Char) (text : Text) :
    size (c :: text) = c.utf8Size + size text := by
  rw [← List.singleton_append, size_append]
  simp [size]

theorem size_replicate (n : Nat) (c : Char) :
    size (List.replicate n c) = n * c.utf8Size := by
  induction n with
  | zero => rw [Nat.zero_mul]; rfl
  | succ n ih => rw [List.replicate_succ, size_cons, ih, Nat.succ_mul, Nat.add_comm]

theorem length_le_size (text : Text) : text.length ≤ size text := by
  induction text with
  | nil => simp
  | cons c text ih =>
      have := c.utf8Size_pos
      rw [List.length_cons, size_cons]
      omega

end Utf8

namespace Files

theorem Entry.permits_read_file (content : ByteArray) :
    (Entry.file content 0o644).permits .read = true := by
  simp [permits, mode, Right.bit]

namespace Tree

/-! ## Temporary names -/

theorem size_temporaryName (name : Text) (n : Nat) :
    Utf8.size name + 14 ≤ Utf8.size (temporaryName name n) := by
  have digits := Utf8.length_le_size (Nat.toDigits 10 n)
  have dot : Char.utf8Size '.' = 1 := rfl
  have dash : Char.utf8Size '-' = 1 := rfl
  have zero : Char.utf8Size '0' = 1 := rfl
  have suffix' : Utf8.size ".tmp".toList = 4 := by decide
  simp only [temporaryName, Utf8.size_append, Utf8.size_cons, Utf8.size_replicate,
    dot, dash, zero, suffix']
  omega

private theorem temporaryName_injective (name : Text) {m n : Nat}
    (h : temporaryName name m = temporaryName name n) : m = n := by
  have number (k : Nat) (n : Nat) :
      Nat.ofDigitChars 10 (List.replicate k '0' ++ Nat.toDigits 10 n) 0 = n := by
    rw [Nat.ofDigitChars_append, Nat.ofDigitChars_replicate_zero, Nat.mul_zero,
      Nat.ofDigitChars_ten_toDigits]
  simp only [temporaryName, List.cons_append, List.append_assoc,
    List.cons.injEq, true_and, List.append_cancel_left_eq] at h
  rw [← List.append_assoc, ← List.append_assoc, List.append_cancel_right_eq] at h
  rw [← number _ m, h, number]

private theorem get?_eq_none_of_not_mem {tree : Tree} {place : Place}
    (more : place ≠ []) (h : place ∉ tree.entries.map Prod.fst) :
    tree.get? place = none := by
  have absent : tree.entries.lookup place = none := by
    rw [List.lookup_eq_none_iff]
    intro entry mem
    simp only [bne_iff_ne, ne_eq]
    rintro rfl
    exact h (List.mem_map_of_mem mem)
  rw [get?, absent, if_neg more]

theorem get?_root (tree : Tree) : tree.get? [] ≠ none := by
  unfold get?
  split <;> simp

/-- A fresh name is one of the first, and is not in use. -/
theorem exists_freshName (tree : Tree) (directory : Place) (name : Text) :
    ∃ n ≤ tree.entries.length, tree.freshName directory name =
      temporaryName name n ∧
      tree.get? (directory ++ [temporaryName name n]) = none := by
  obtain ⟨n, bound, unused⟩ : ∃ n, n < tree.entries.length + 1 ∧
      tree.get? (directory ++ [temporaryName name n]) = none := by
    -- If all these names were in use, there would be more of them than entries.
    refine Classical.byContradiction fun none => ?_
    have used : (List.range (tree.entries.length + 1)).map
        (fun n => directory ++ [temporaryName name n]) ⊆
          tree.entries.map Prod.fst := by
      intro place mem
      obtain ⟨n, inRange, rfl⟩ := List.mem_map.1 mem
      refine Classical.byContradiction fun notThere =>
        none ⟨n, List.mem_range.1 inRange, ?_⟩
      exact get?_eq_none_of_not_mem (by simp) notThere
    have distinct : ((List.range (tree.entries.length + 1)).map
        fun n => directory ++ [temporaryName name n]).Nodup := by
      refine List.Pairwise.map _ (fun m n differ same => differ ?_) List.nodup_range
      exact temporaryName_injective name (by simpa using same)
    have := distinct.length_le_of_subset used
    simp only [List.length_map, List.length_range] at this
    omega
  cases found : (List.range (tree.entries.length + 1)).find? fun n =>
      (tree.get? (directory ++ [temporaryName name n])).isNone with
  | none =>
      have := List.find?_eq_none.1 found n (by simpa using bound)
      simp [unused] at this
  | some m =>
      have inRange := List.mem_of_find?_eq_some found
      have here := List.find?_some found
      refine ⟨m, ?_, ?_, by simpa using here⟩
      · rw [List.mem_range] at inRange
        omega
      · rw [freshName, found]
        rfl

/-! ## Writing -/

/-- A file that can be read and replaced, at the place that a path leads to. -/
structure Replaceable (tree : Tree) (path : Path) (place : Place) : Prop where
  file : ∃ content mode, tree.locate .keep path =
    .ok ⟨place, some (.file content mode)⟩ ∧
    (Entry.file content mode).permits .read = true
  directory : ∃ found?,
    tree.locate .follow (Path.ofPlace (tree.temporaryDirectory path)) =
      .ok ⟨place.dropLast, found?⟩
  isDirectory : tree.isDirectoryAt place.dropLast = true
  search : tree.permits place.dropLast .search = true
  write : tree.permits place.dropLast .write = true
  named : ∀ name ∈ tree.temporaryDirectory path, isName name = true
  temporary : ∀ n ≤ tree.entries.length, isName (temporaryName path.name n) = true ∧
    Utf8.size (temporaryName path.name n) ≤ maxName ∧
    Utf8.size (Path.ofPlace (tree.temporaryDirectory path ++
      [temporaryName path.name n])).toText ≤ maxPath

section Writing

variable {tree tree' : Tree} {path : Path} {place : Place}

theorem stat_of_file {content : ByteArray} {mode : Nat}
    (found : tree.locate .keep path = .ok ⟨place, some (.file content mode)⟩) :
    tree.stat path = .ok (.file content mode) := by
  rw [stat, locate_follow found (by simp)]
  rfl

theorem readText_of_stat {content : ByteArray} {mode : Nat}
    (found : tree.stat path = .ok (.file content mode))
    (readable : (Entry.file content mode).permits .read = true) :
    tree.readText path = match Utf8.decode? content with
      | some text => .ok text
      | none => .error .storage := by
  simp only [readText, readFile, found, ok_bind, readable, Bool.true_eq_false,
    if_false]
  rfl

/-- A temporary file is made in the directory that a path has by name, if all
the names that may be tried are short enough. -/
theorem createTemporary_of_room {above : Place} {found? : Option Entry}
    (noNul : path.hasNul = false)
    (directory : tree.locate .follow (Path.ofPlace (tree.temporaryDirectory path))
      = .ok ⟨above, found?⟩)
    (isDirectory : tree.isDirectoryAt above = true)
    (search : tree.permits above .search = true)
    (write : tree.permits above .write = true)
    (named : ∀ name ∈ tree.temporaryDirectory path, isName name = true)
    (temporary : ∀ n ≤ tree.entries.length, isName (temporaryName path.name n) =
      true ∧ Utf8.size (temporaryName path.name n) ≤ maxName ∧ Utf8.size
      (Path.ofPlace (tree.temporaryDirectory path ++
        [temporaryName path.name n])).toText ≤ maxPath) :
    ∃ name, tree.get? (above ++ [name]) = none ∧ tree.createTemporary path =
      .ok (above ++ [name],
        tree.set (above ++ [name]) (.file ByteArray.empty 0o600)) := by
  obtain ⟨n, inRange, fresh, unused⟩ := tree.exists_freshName above path.name
  obtain ⟨isName', short, shortPath⟩ := temporary n inRange
  have led := ((locate_ofPlace_iff named).1 directory).2
  have enters : tree.Enters .keep above (temporaryName path.name n) [] :=
    ⟨isDirectory, search, proper_of_isName isName', by simp, short⟩
  have spot := led.snoc enters (by simp [unused])
  rw [unused] at spot
  have found : tree.locate .keep ((Path.ofPlace (tree.temporaryDirectory path)).join
      ⟨0, [temporaryName path.name n]⟩) = .ok ⟨above ++
        [temporaryName path.name n], none⟩ := by
    have named' :=
      List.forall_mem_append.2 ⟨named, List.forall_mem_singleton.2 isName'⟩
    exact (locate_ofPlace_iff named').2 ⟨shortPath, spot⟩
  have canChange : tree.canChange (above ++ [temporaryName path.name n]) =
      true := by
    rw [Tree.canChange, List.dropLast_concat]
    exact write
  refine ⟨temporaryName path.name n, unused, ?_⟩
  unfold createTemporary
  rw [if_neg (by simp [noNul])]
  simp only [directory, ok_bind, fresh, found, canChange, if_true]
  rfl

namespace Replaceable

theorem stat_eq (h : tree.Replaceable path place) :
    ∃ content mode, tree.stat path = .ok (.file content mode) ∧
      tree.get? place = some (.file content mode) ∧
      (Entry.file content mode).permits .read = true := by
  obtain ⟨content, mode, found, readable⟩ := h.file
  exact ⟨content, mode, stat_of_file found, (locate_found? found).symm, readable⟩

theorem doesExist_eq (h : tree.Replaceable path place) :
    tree.doesExist path = .ok true := by
  obtain ⟨content, mode, found, -, -⟩ := h.stat_eq
  rw [doesExist, test, found]

private theorem createTemporary_eq (h : tree.Replaceable path place) :
    ∃ name, tree.get? (place.dropLast ++ [name]) = none ∧
      tree.createTemporary path = .ok (place.dropLast ++ [name],
        tree.set (place.dropLast ++ [name]) (.file ByteArray.empty 0o600)) := by
  obtain ⟨content, mode, file, -⟩ := h.file
  obtain ⟨found?, directory⟩ := h.directory
  exact createTemporary_of_room (locate_eq_ok_iff.1 file).1 directory
    h.isDirectory h.search h.write h.named h.temporary

end Replaceable

/-- The tree `after` differs from `tree` in the text of the file at a place. -/
structure Replaced (tree : Tree) (place : Place) (text : Text) (after : Tree) :
    Prop where
  file : ∃ content mode, tree.get? place = some (.file content mode) ∧
    after.get? place = some (.file (Utf8.encode text) mode)
  others : ∀ other, other ≠ place → after.get? other = tree.get? other
  here : after.here = tree.here
  length : after.entries.length ≤ tree.entries.length

private theorem length_set_le {entry : Entry}
    (there : place ∈ tree.entries.map Prod.fst) :
    (tree.set place entry).entries.length ≤ tree.entries.length := by
  obtain ⟨old, mem, rfl⟩ := List.mem_map.1 there
  have fewer : (tree.erase old.1).entries.length < tree.entries.length :=
    List.length_filter_lt_length_iff_exists.2 ⟨old, mem, by simp⟩
  rw [set, List.length_cons]
  exact fewer

theorem erase_set {entry : Entry} :
    (tree.set place entry).erase place = tree.erase place := by
  simp [erase, set, List.filter_filter]

theorem set_erase {entry : Entry} :
    (tree.erase place).set place entry = tree.set place entry := by
  simp [erase, set, List.filter_filter]

theorem set_set {entry entry' : Entry} :
    (tree.set place entry).set place entry' = tree.set place entry' := by
  rw [set, erase_set]
  rfl

theorem Alike.set_file (unused : tree.get? place = none) (content : ByteArray)
    (mode : Nat) :
    Alike tree (tree.set place (.file content mode)) := by
  refine .of_files rfl fun other => ?_
  by_cases same : other = place
  · subst same
    exact .inr ⟨by simp [unused], by simp [get?_set, Entry.isFile]⟩
  · exact .inl (by rw [get?_set, if_neg same])

private theorem mem_of_file {content : ByteArray} {mode : Nat}
    (h : tree.get? place = some (.file content mode)) :
    place ∈ tree.entries.map Prod.fst := by
  refine Classical.byContradiction fun absent => ?_
  by_cases root : place = []
  · subst root
    have unlisted : tree.entries.lookup [] = none := by
      rw [List.lookup_eq_none_iff]
      intro entry mem
      simp only [bne_iff_ne, ne_eq]
      intro same
      exact absent (same ▸ List.mem_map_of_mem mem)
    simp [get?, unlisted, newDirectory] at h
  · simp [get?_eq_none_of_not_mem root absent] at h

private theorem modeFor_eq {content : ByteArray} {mode : Nat}
    (h : tree.locate .keep path = .ok ⟨place, some (.file content mode)⟩) :
    tree.modeFor path = .ok mode := by
  simp only [modeFor, doesExist, test, stat_of_file h]
  rfl

private theorem permits_set_of_unused {entry : Entry} {right : Right}
    {other : Place} (unused : tree.get? place = none)
    (h : tree.permits other right = true) :
    (tree.set place entry).permits other right = true := by
  rw [permits, get?_set, if_neg]
  · exact h
  · rintro rfl
    simp [permits, unused] at h

/-- A temporary file takes the place that its path leads to, where a file or
nothing was. -/
theorem writeText_of_spot {found? : Option Entry} {temp : Place}
    (kept : tree.locate .keep path = .ok ⟨place, found?⟩)
    (plain : ∀ entry, found? = some entry → entry.isFile = true)
    (unused : tree.get? temp = none)
    (created : tree.createTemporary path =
      .ok (temp, tree.set temp (.file ByteArray.empty 0o600)))
    (atTemp : tree.canChange temp = true)
    (atPlace : tree.canChange place = true) (text : Text) :
    tree.writeText path text = (.ok (), (tree.erase temp).set place
      (.file (Utf8.encode text) ((found?.map Entry.mode).getD 0o600))) := by
  have there : found? = tree.get? place := locate_found? kept
  have target (content : ByteArray) (mode : Nat) :
      (tree.set temp (.file content mode)).locate .keep path = .ok ⟨place,
        if place = temp then some (.file content mode) else found?⟩ := by
    rw [(Alike.set_file unused content mode).locate_eq kept, get?_set, there]
  have canChange {other : Place} (h : tree.canChange other = true)
      (content : ByteArray) (mode : Nat) :
      (tree.set temp (.file content mode)).canChange other = true :=
    permits_set_of_unused unused h
  have moded : (tree.set temp (.file ByteArray.empty 0o600)).modeFor path =
      .ok ((found?.map Entry.mode).getD 0o600) := by
    have found := target ByteArray.empty 0o600
    by_cases same : place = temp
    · obtain rfl : found? = none := by rw [there, same, unused]
      rw [if_pos same] at found
      exact modeFor_eq found
    · rw [if_neg same] at found
      cases found? with
      | none =>
          simp only [modeFor, doesExist, test, stat,
            locate_follow found (by simp), ok_bind]
          rfl
      | some entry =>
          cases entry with
          | file content mode => exact modeFor_eq found
          | directory mode => exact absurd (plain _ rfl) (by simp [Entry.isFile])
          | link target => exact absurd (plain _ rfl) (by simp [Entry.isFile])
  have notDirectory (content : ByteArray) (mode : Nat) :
      ((if place = temp then some (.file content mode) else found?).map
        Entry.isDirectory).getD false = false := by
    split
    · rfl
    · cases found? with
      | none => rfl
      | some entry =>
          cases entry with
          | file content mode => rfl
          | directory mode => exact absurd (plain _ rfl) (by simp [Entry.isFile])
          | link target => rfl
  simp only [writeText, writeAtomic, created, scalars?_toPoints, moded, set_set,
    moveTo, target,
    canChange atTemp, canChange atPlace, notDirectory, get?_set, if_true,
    erase_set, Bool.and_self, Bool.true_eq_false, Bool.false_eq_true, if_false]

theorem writeText_of_file {content : ByteArray} {mode : Nat} {temp : Place}
    (file : tree.locate .keep path = .ok ⟨place, some (.file content mode)⟩)
    (unused : tree.get? temp = none)
    (created : tree.createTemporary path =
      .ok (temp, tree.set temp (.file ByteArray.empty 0o600)))
    (atTemp : tree.canChange temp = true)
    (atPlace : tree.canChange place = true) (text : Text) :
    ∃ after, tree.writeText path text = (.ok (), after) ∧
      tree.Replaced place text after := by
  have there : tree.get? place = some (.file content mode) :=
    (locate_found? file).symm
  have nonempty : temp ≠ [] := by
    rintro rfl
    exact tree.get?_root unused
  have other : place ≠ temp := by
    rintro rfl
    simp [there] at unused
  refine ⟨_, writeText_of_spot file (by rintro entry ⟨⟩; rfl) unused created
    atTemp atPlace text, ⟨content, mode, there, ?_⟩, ?_, rfl, ?_⟩
  · rw [get?_set, if_pos rfl]
    rfl
  · intro q differs
    rw [get?_set, if_neg differs, get?_erase _ _ nonempty]
    split
    next same => rw [same, unused]
    next => rfl
  · have listed : place ∈ (tree.erase temp).entries.map Prod.fst :=
      mem_of_file (by rw [get?_erase _ _ nonempty, if_neg other, there])
    exact Nat.le_trans (length_set_le listed) (List.length_filter_le _ _)

theorem Replaceable.writeText_eq (h : tree.Replaceable path place) (text : Text) :
    ∃ after, tree.writeText path text = (.ok (), after) ∧
      tree.Replaced place text after := by
  obtain ⟨name, unused, created⟩ := h.createTemporary_eq
  obtain ⟨content, mode, file, -⟩ := h.file
  refine writeText_of_file file unused created ?_ h.write text
  rw [Tree.canChange, List.dropLast_concat]
  exact h.write

/-! ## Reading what was written -/

theorem Replaced.alike {text : Text} (h : tree.Replaced place text tree') :
    Alike tree tree' := by
  obtain ⟨content, mode, old, new⟩ := h.file
  refine .of_files h.here fun other => ?_
  by_cases same : other = place
  · subst same
    exact .inr ⟨by simp [old, Entry.isFile], by simp [new, Entry.isFile]⟩
  · exact .inl (h.others other same)

theorem Replaced.locate_eq {text : Text} (h : tree.Replaced place text tree')
    {content : ByteArray} {mode : Nat}
    (file : tree.locate .keep path = .ok ⟨place, some (.file content mode)⟩) :
    tree'.locate .keep path =
      .ok ⟨place, some (.file (Utf8.encode text) mode)⟩ := by
  obtain ⟨content', mode', old, new⟩ := h.file
  have there := locate_found? file
  simp only [old, Option.some.injEq, Entry.file.injEq] at there
  obtain ⟨rfl, rfl⟩ := there
  rw [h.alike.locate_eq file, new]

theorem Replaceable.of_alike (h : tree.Replaceable path place)
    (alike : Alike tree tree')
    (length : tree'.entries.length ≤ tree.entries.length)
    (file : ∃ content mode, tree'.get? place = some (.file content mode) ∧
      (Entry.file content mode).permits .read = true) :
    tree'.Replaceable path place := by
  obtain ⟨content, mode, there, readable⟩ := file
  obtain ⟨content', mode', found, -⟩ := h.file
  obtain ⟨found?, directory⟩ := h.directory
  have same : tree'.temporaryDirectory path = tree.temporaryDirectory path := by
    rw [temporaryDirectory, alike.here]
    rfl
  refine ⟨⟨content, mode, ?_, readable⟩, ⟨tree'.get? place.dropLast, ?_⟩,
    alike.isDirectoryAt h.isDirectory, ?_, ?_, ?_, ?_⟩
  · rw [alike.locate_eq found, there]
  · rw [same, alike.locate_eq directory]
  · rw [alike.permits h.isDirectory, h.search]
  · rw [alike.permits h.isDirectory, h.write]
  · rw [same]
    exact h.named
  · intro n inRange
    rw [same]
    exact h.temporary n (Nat.le_trans inRange length)

theorem Replaced.replaceable {text : Text} (h : tree.Replaced place text tree')
    (old : tree.Replaceable path place) : tree'.Replaceable path place := by
  obtain ⟨content, mode, there, new⟩ := h.file
  obtain ⟨content', mode', found, readable⟩ := old.file
  have same := locate_found? found
  simp only [there, Option.some.injEq, Entry.file.injEq] at same
  obtain ⟨rfl, rfl⟩ := same
  exact old.of_alike h.alike h.length ⟨_, _, new, readable⟩

theorem Replaceable.readText_eq (h : tree.Replaceable path place)
    {content : ByteArray} {mode : Nat}
    (there : tree.get? place = some (.file content mode)) {text : Text}
    (decoded : Utf8.decode? content = some text) :
    tree.readText path = .ok text := by
  obtain ⟨content', mode', found, there', readable⟩ := h.stat_eq
  simp only [there, Option.some.injEq, Entry.file.injEq] at there'
  obtain ⟨rfl, rfl⟩ := there'
  rw [readText_of_stat found readable, decoded]

theorem Replaced.readText_eq {text : Text} (h : tree.Replaced place text tree')
    (old : tree.Replaceable path place) : tree'.readText path = .ok text := by
  obtain ⟨content, mode, -, new⟩ := h.file
  exact (h.replaceable old).readText_eq new (Utf8.decode?_encode text)

end Writing

/-! ## A file in the root directory -/

def single (name text : Text) : Tree :=
  ⟨[([name], .file (Utf8.encode text) 0o644)], []⟩

theorem locate_single {name : Text} (proper : isName name = true)
    (short : Utf8.size name ≤ maxName) (text : Text) :
    (single name text).locate .keep ⟨0, [name]⟩ =
      .ok ⟨[name], some (.file (Utf8.encode text) 0o644)⟩ := by
  have written : Path.toText ⟨0, [name]⟩ = name := by simp [Path.toText, joinSlash]
  have nonempty := ne_nil_of_isName proper
  have noNul : Path.hasNul ⟨0, [name]⟩ = false := by
    simp only [isName, Bool.and_eq_true] at proper
    simpa [Path.hasNul] using proper.2
  have listed : components name = [name] := by
    change components (List.replicate 0 '/' ++ joinSlash [name]) = [name]
    refine components_joinSlash (by simp) (fun part mem => ?_) 0
    obtain rfl := List.mem_singleton.1 mem
    simp only [isName, Bool.and_eq_true] at proper
    exact ⟨nonempty, by simpa using proper.1.2⟩
  have start : origin (single name text).here name = [] := by
    simp only [origin, single, ite_self]
  have enters : (single name text).Enters .keep [] name [] :=
    ⟨rfl, rfl, proper_of_isName proper, by simp, short⟩
  have found : (single name text).get? [name] =
      some (.file (Utf8.encode text) 0o644) := by
    simp [single, get?]
  have led := enters.leads (by simp [found]) maxLinks
  rw [List.nil_append, found] at led
  refine locate_eq_ok_iff.2 ⟨noNul, ?_, by rwa [written, listed, start]⟩
  rw [written]
  exact Nat.le_trans short (by decide)

theorem replaceable_single {name : Text} (proper : isName name = true)
    (short : Utf8.size name ≤ maxName)
    (fits : ∀ n ≤ 1, isName (temporaryName name n) = true ∧
      Utf8.size (temporaryName name n) ≤ maxName ∧ Utf8.size
      (Path.ofPlace [temporaryName name n]).toText ≤ maxPath)
    (text : Text) :
    (single name text).Replaceable ⟨0, [name]⟩ [name] := by
  have directory : (single name text).temporaryDirectory ⟨0, [name]⟩ = [] := rfl
  refine ⟨⟨_, _, locate_single proper short text, ?_⟩, ?_, rfl, rfl, rfl, ?_, ?_⟩
  · exact Entry.permits_read_file _
  · rw [directory]
    exact ⟨_, (locate_ofPlace_iff (by simp)).2 ⟨by decide, .stay⟩⟩
  · rw [directory]
    simp
  · rw [directory]
    exact fits

end Tree

end Files

end Showcase

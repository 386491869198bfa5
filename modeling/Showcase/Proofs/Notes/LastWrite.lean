import Mathlib
import Showcase.Proofs.Files.Missing
import Showcase.Proofs.Files.Placed
import Showcase.Proofs.Json.RoundTrip
import Showcase.Proofs.Notes.Failing

/-!
# The last accepted write

What is read of the notes is the mapping that was written last, whatever writes
were refused meanwhile (`run_reads_last`).
-/

namespace Showcase.Notes

open Files

variable {tree after : Tree} {path : Path} {mapping held : Json} {room : Nat}

/-! ## What the notes hold -/

/-- The mapping that a text is the writing of. -/
def parse (text : Text) (room : Nat) : Except Failure Json :=
  if text.all isBlank then .ok (.object [])
  else
    match Json.read text room with
    | .error .malformed => .error .storage
    | .error .longInteger => .error .longInteger
    | .error .tooDeep => .error .recursion
    | .ok (.object members) => .ok (.object members)
    | .ok _ => .error .storage

theorem read_eq (tree : Tree) (path : Path) (room : Nat) :
    read tree path room = (tree.doesExist path >>= fun found =>
      if found then tree.readText path >>= (parse · room) else .ok (.object [])) :=
  rfl

/-- The notes are missing and hold the empty mapping, or they are a file that
holds its text's. -/
inductive Holds (room : Nat) (tree : Tree) (path : Path) : Json → Prop where
  | missing (nothing : tree.Missing path) : Holds room tree path (.object [])
  | file {place : Place} {content : ByteArray} {mode : Nat} {text : Text}
      {mapping : Json}
      (located : tree.locate .follow path = .ok ⟨place, some (.file content mode)⟩)
      (readable : (Entry.file content mode).permits .read = true)
      (decoded : Utf8.decode? content = some text) (parsed : parse text room =
        .ok mapping) :
      Holds room tree path mapping

theorem Holds.notLoop (h : Holds room tree path mapping) :
    tree.stat path ≠ .error (.system .tooManyLinks) := by
  intro loop
  cases h with
  | missing nothing =>
      rw [Tree.Missing, loop] at nothing
      simp at nothing
  | file located =>
      have found := Tree.stat_eq_ok_iff.2 ⟨_, located⟩
      simp [loop] at found

private theorem Holds.isReadable {entry : Entry}
    (h : Holds room tree path mapping) (found : tree.stat path = .ok entry) :
    entry.isFile = true ∧ entry.permits .read = true := by
  cases h with
  | missing nothing =>
      rw [Tree.Missing, found] at nothing
      simp at nothing
  | file located readable =>
      have found' := Tree.stat_eq_ok_iff.2 ⟨_, located⟩
      obtain rfl := Except.ok.inj (found'.symm.trans found)
      exact ⟨rfl, readable⟩

theorem Holds.read_eq (h : Holds room tree path mapping) :
    read tree path room = .ok mapping := by
  rw [Notes.read_eq]
  cases h with
  | missing nothing =>
      have absent : tree.doesExist path = .ok false := by
        simp only [Tree.Missing, List.mem_cons, List.not_mem_nil, or_false]
          at nothing
        rcases nothing with found | found | found <;>
          rw [Tree.doesExist, Tree.test, found]
      rw [absent, ok_bind, if_neg (by simp)]
  | file located readable decoded parsed =>
      have there : tree.doesExist path = .ok true :=
        Tree.doesExist_of_stat (Tree.stat_eq_ok_iff.2 ⟨_, located⟩)
      rw [there, ok_bind, if_pos rfl,
        Tree.readText_eq_of_locate located readable decoded, ok_bind, parsed]

private theorem holds_of_read (h : read tree path room = .ok mapping)
    (notLoop : tree.stat path ≠ .error (.system .tooManyLinks)) :
    Holds room tree path mapping := by
  rw [Notes.read_eq] at h
  obtain ⟨found, tested, rest⟩ := bind_eq_ok_iff.1 h
  cases found with
  | true =>
      rw [if_pos rfl] at rest
      obtain ⟨text, read, parsed⟩ := bind_eq_ok_iff.1 rest
      obtain ⟨place, content, mode, located, readable, decoded⟩ :=
        Tree.exists_of_readText read
      exact .file located readable decoded parsed
  | false =>
      rw [if_neg (by simp)] at rest
      obtain rfl := (Except.ok.inj rest).symm
      refine .missing ?_
      unfold Tree.doesExist Tree.test at tested
      split at tested
      all_goals simp_all [Tree.Missing]

private theorem parse_indented {members : List (Json.Key × Json)} {text : Text}
    (plain : (Json.object members).Plain)
    (deep : (Json.object members).depth ≤ room)
    (h : scalars? (Json.object members).indented = some text) :
    parse text room = .ok (.object members) := by
  have notBlank : text.all isBlank = false := by
    obtain ⟨rest, rfl⟩ := Json.exists_brace (scalars?_eq_some_iff.1 h).symm
    rw [List.all_cons, show isBlank '\x7b' = false from by decide]
    rfl
  rw [parse, if_neg (by simp [notBlank]), Json.read_indented plain h deep]

/-! ## One call -/

section

variable (proper : path.Proper) (admits : tree.Admits path)

include proper admits

theorem Holds.makeDirectories (held' : Holds room tree path held) :
    (tree.makeDirectories path.parent).2.Admits path ∧
      Holds room (tree.makeDirectories path.parent).2 path held := by
  obtain ⟨admits', missing⟩ := admits.makeDirectories proper path.parent_liesAbove
  refine ⟨admits', ?_⟩
  cases held' with
  | missing nothing => exact .missing (missing nothing)
  | file located readable decoded parsed =>
      have grows := tree.makeDirectories_grows path.parent
      exact .file (grows.within.locate_eq grows.here located (by simp)) readable
        decoded parsed

theorem Holds.refused {points : List CodePoint} {failure : Failure}
    (held' : Holds room tree path held)
    (refused : (tree.writeAtomic path points).1 = .error failure) :
    (tree.writeAtomic path points).2.Admits path ∧
      Holds room (tree.writeAtomic path points).2 path held := by
  rcases Tree.writeAtomic_steps admits.grounded.named proper points with
    ⟨failure, failed⟩ | ⟨temp, beside, canChange,
      ⟨-, failed⟩ | ⟨_, _, _, after, -, -, -, -, wrote, -⟩⟩
  · rw [failed]
    exact ⟨admits, held'⟩
  · rw [failed]
    refine ⟨admits.temporary beside.unused (Tree.ne_none_of_canChange canChange),
      ?_⟩
    cases held' with
    | missing nothing =>
        rcases Tree.missing_of_temporary beside.unused nothing with
          nothing' | located
        · exact .missing nothing'
        · exact .file located rfl (Utf8.decode?_encode []) rfl
    | file located readable decoded parsed =>
        have within := Tree.Within.set beside.unused (.file ByteArray.empty 0o600)
        exact .file (within.locate_eq rfl located (by simp)) readable decoded parsed
  · simp [wrote] at refused

theorem Holds.accepted {members : List (Json.Key × Json)}
    (plain : (Json.object members).Plain)
    (deep : (Json.object members).depth ≤ room)
    (held' : Holds room tree path held)
    (wrote : (tree.writeAtomic path (Json.object members).indented).1 = .ok ()) :
    (tree.writeAtomic path (Json.object members).indented).2.Admits path ∧
      Holds room (tree.writeAtomic path (Json.object members).indented).2 path
        (.object members) := by
  rcases Tree.writeAtomic_steps admits.grounded.named proper
    (Json.object members).indented with
    ⟨failure, failed⟩ | ⟨temp, beside, canChange, ⟨-, failed⟩ | written⟩
  · simp [failed] at wrote
  · simp [failed] at wrote
  · obtain ⟨text, mode, target, after, encoded, kept, notDirectory, moded, wrote',
      puts⟩ := written
    rw [wrote']
    have located : after.locate .follow path =
        .ok ⟨target.place, some (.file (Utf8.encode text) mode)⟩ :=
      Tree.locate_of_puts puts kept notDirectory held'.notLoop
        fun entry found => (held'.isReadable found).1
    have readable : (Entry.file (Utf8.encode text) mode).permits .read = true := by
      rcases Tree.modeFor_cases beside.unused moded with
        ⟨entry, found, rfl⟩ | ⟨-, rfl⟩
      · exact (held'.isReadable found).2
      · simp [Entry.permits, Entry.mode, Right.bit]
    exact ⟨admits.put proper kept (Tree.isDirectoryAt_of_target kept notDirectory)
      puts located,
      .file located readable (Utf8.decode?_encode text)
        (parse_indented plain deep encoded)⟩

/-- A replacement that is accepted is held from then on, and one that is refused
leaves what was held. -/
theorem Holds.replace (plain : mapping.Plain) (held' : Holds room tree path held) :
    (replace tree path mapping room).2.Admits path ∧
      ((replace tree path mapping room).1 = .ok () →
        Holds room (replace tree path mapping room).2 path mapping) ∧
      ∀ failure, (replace tree path mapping room).1 = .error failure →
        Holds room (replace tree path mapping room).2 path held := by
  obtain ⟨admits', above⟩ := held'.makeDirectories proper admits
  rcases replace_cases tree path mapping room with
    ⟨why, refused⟩ | ⟨checked, ⟨failure, failed⟩ | ⟨-, deep, wrote⟩⟩
  · rw [refused]
    exact ⟨admits, by simp, fun _ _ => held'⟩
  · rw [failed]
    exact ⟨admits', by simp, fun _ _ => above⟩
  · obtain ⟨members, rfl⟩ : ∃ members, mapping = .object members := by
      unfold check at checked
      split at checked
      · exact ⟨_, rfl⟩
      · simp at checked
    rw [wrote]
    cases outcome : ((tree.makeDirectories path.parent).2.writeAtomic path
        (Json.object members).indented).1 with
    | ok =>
        obtain ⟨admits'', written⟩ :=
          above.accepted proper admits' plain deep outcome
        exact ⟨admits'', fun _ => written, by simp⟩
    | error failure =>
        obtain ⟨admits'', left⟩ := above.refused proper admits' outcome
        exact ⟨admits'', by simp, fun _ _ => left⟩

end

/-! ## Runs -/

inductive Call where
  | read
  | replace (mapping : Json)

/-- A call and how it ended. -/
inductive Event where
  | got (answer : Except Failure Json)
  | replaced (mapping : Json) (outcome : Except Failure Unit)

def Call.run (room : Nat) (path : Path) (tree : Tree) : Call → Event × Tree
  | .read => (.got (Notes.read tree path room), tree)
  | .replace mapping =>
      (.replaced mapping (Notes.replace tree path mapping room).1,
        (Notes.replace tree path mapping room).2)

def run (room : Nat) (path : Path) (tree : Tree) : List Call → List Event
  | [] => []
  | call :: calls => (call.run room path tree).1 ::
      run room path (call.run room path tree).2 calls

/-- The mapping that was accepted last, or else the first one. -/
def lastAccepted (mapping : Json) : List Event → Json
  | [] => mapping
  | .replaced mapping' (.ok ()) :: events => lastAccepted mapping' events
  | .replaced _ (.error _) :: events => lastAccepted mapping events
  | .got _ :: events => lastAccepted mapping events

theorem Holds.step {call : Call} (proper : path.Proper)
    (admits : tree.Admits path)
    (plain : ∀ mapping, call = .replace mapping → mapping.Plain)
    (held' : Holds room tree path held) :
    (call.run room path tree).2.Admits path ∧
      Holds room (call.run room path tree).2 path
        (lastAccepted held [(call.run room path tree).1]) := by
  cases call with
  | read => exact ⟨admits, held'⟩
  | replace mapping =>
      have outcome := held'.replace proper admits (plain mapping rfl)
      rw [show Call.run room path tree (.replace mapping) =
        (.replaced mapping (Notes.replace tree path mapping room).1,
          (Notes.replace tree path mapping room).2) from rfl]
      generalize Notes.replace tree path mapping room = replaced at outcome ⊢
      obtain ⟨answer, after⟩ := replaced
      obtain ⟨admits', accepted, refused⟩ := outcome
      cases answer with
      | ok => exact ⟨admits', accepted rfl⟩
      | error failure => exact ⟨admits', refused failure rfl⟩

private theorem lastAccepted_cons (mapping : Json) (event : Event)
    (events : List Event) :
    lastAccepted mapping (event :: events) =
      lastAccepted (lastAccepted mapping [event]) events := by
  rcases event with answer | ⟨mapping', failure | ⟨⟩⟩ <;> rfl

/-- What is read of the notes is the mapping that was accepted last, or what was
read of them at first. -/
theorem run_reads_last {tree : Tree} {path : Path} {initial : Json}
    {calls : List Call} (proper : path.Proper) (admits : tree.Admits path)
    (readable : read tree path room = .ok initial)
    (notLoop : tree.stat path ≠ .error (.system .tooManyLinks))
    (plain : ∀ mapping, .replace mapping ∈ calls → mapping.Plain) :
    ∀ before answer after, run room path tree calls = before ++
      .got answer :: after →
      answer = .ok (lastAccepted initial before) := by
  have held := holds_of_read readable notLoop
  clear readable notLoop
  induction calls generalizing tree initial with
  | nil => simp [run]
  | cons call calls ih =>
      intro before answer after shape
      have plain' : ∀ mapping, call = .replace mapping → mapping.Plain := by
        rintro mapping rfl
        exact plain mapping List.mem_cons_self
      obtain ⟨admits', held'⟩ := held.step proper admits plain'
      rw [run] at shape
      cases before with
      | nil =>
          obtain ⟨first, -⟩ := List.cons.inj shape
          cases call with
          | read =>
              obtain rfl := Event.got.inj first
              exact held.read_eq
          | replace mapping => simp [Call.run] at first
      | cons event before =>
          obtain ⟨rfl, rest⟩ := List.cons.inj shape
          rw [lastAccepted_cons]
          exact ih admits' (fun mapping mem =>
            plain mapping (List.mem_cons_of_mem _ mem)) held' before
            answer after rest

/-! ## Notes in the root directory -/

def plainNotes : Path := ⟨0, ["notes.json".toList]⟩

def plainTree : Tree := .single "notes.json".toList "\x7b\x7d".toList

private theorem grounded_single (name text : Text) :
    (Tree.single name text).Grounded := by
  refine ⟨by simp [Tree.Named, Tree.single], fun before ahead => ?_⟩
  obtain rfl := List.prefix_nil.1 ahead
  rfl

private theorem closed_single (name text : Text) :
    (Tree.single name text).Closed := by
  intro place last absent
  cases place with
  | nil => exact absurd absent (Tree.get?_root _)
  | cons first rest =>
      have differs : (first :: rest ++ [last] == [name]) = false := by simp
      rw [Tree.get?, Tree.single, List.lookup_cons, differs]
      rfl

private theorem plain_oneNote : oneNote.Plain := by
  refine .object (by decide) fun member mem => ?_
  obtain rfl := List.mem_singleton.1 mem
  exact .object (by simp) (by simp)

theorem locate_plainNotes : plainTree.locate .keep plainNotes =
    .ok ⟨["notes.json".toList],
      some (.file (Utf8.encode "\x7b\x7d".toList) 0o644)⟩ :=
  Tree.locate_single (by decide) (by decide) _

private theorem read_plainNotes : read plainTree plainNotes = .ok (.object []) := by
  exact Holds.read_eq (.file (Tree.locate_follow locate_plainNotes (by simp))
    (Entry.permits_read_file _) (Utf8.decode?_encode _) rfl)

private theorem replace_plainNotes :
    ∃ after, replace plainTree plainNotes oneNote = (.ok (), after) := by
  have replaceable : plainTree.Replaceable plainNotes ["notes.json".toList] :=
    Tree.replaceable_single (by decide) (by decide) (by decide) _
  obtain ⟨after, wrote, -⟩ :=
    replaceable.writeText_eq "\x7b\n  \"k\": \x7b\x7d\n\x7d".toList
  have located : plainTree.locate .follow plainNotes.parent =
      .ok ⟨[], plainTree.get? []⟩ :=
    Tree.locate_eq_ok_iff.2 ⟨by decide, by decide, .dot rfl rfl .stay⟩
  have directory : plainTree.isDirectory plainNotes.parent = .ok true := by
    rw [Tree.isDirectory, Tree.test, Tree.stat, located]
    rfl
  refine ⟨after, ?_⟩
  rw [replace, show check oneNote = .ok () from rfl]
  simp only [Tree.makeDirectories_of_isDirectory directory]
  exact wrote

theorem run_reads_last_plainNotes :
    run Json.usualRoom plainNotes plainTree [.replace oneNote,
      .replace .null, .read] =
        [.replaced oneNote (.ok ()),
          .replaced .null (.error (.refused .notesNotObject)),
          .got (.ok oneNote)] := by
  obtain ⟨after, replaced⟩ := replace_plainNotes
  have proper : plainNotes.Proper := by
    unfold Path.Proper
    decide
  have located := Tree.locate_follow locate_plainNotes (by simp)
  have admits : plainTree.Admits plainNotes :=
    ⟨grounded_single _ _, closed_single _ _, Tree.direct_of_locate proper located⟩
  have ran : run Json.usualRoom plainNotes plainTree [.replace oneNote,
      .replace .null, .read] =
        [.replaced oneNote (.ok ()),
          .replaced .null (.error (.refused .notesNotObject)),
          .got (read after plainNotes)] := by
    simp only [run, Call.run, replaced]
    rfl
  rw [ran, run_reads_last proper admits read_plainNotes
    (by rw [Tree.stat_of_file locate_plainNotes]; simp) ?_ [_, _] _ [] ran]
  · rfl
  · intro mapping mem
    simp only [List.mem_cons, Call.replace.injEq, reduceCtorEq, List.not_mem_nil,
      or_false] at mem
    rcases mem with rfl | rfl
    · exact plain_oneNote
    · exact .null

/-! ## Notes behind a missing directory -/

private theorem locate_of_absent {ending : Tree.Ending} {name next : Text}
    {names : List Text} (proper : Path.Proper ⟨0, name :: next :: names⟩)
    (noNul : Path.hasNul ⟨0, name :: next :: names⟩ = false)
    (short : Utf8.size (Path.toText ⟨0, name :: next :: names⟩) ≤ Tree.maxPath)
    (enters : tree.Enters ending tree.here name (next :: names))
    (absent : tree.get? (tree.here ++ [name]) = none) :
    tree.locate ending ⟨0, name :: next :: names⟩ = .error (.system .noEntry) := by
  have walked : tree.walk ending Tree.maxLinks tree.here (name :: next :: names) =
      .error .noEntry := by
    rw [enters.walk_eq, absent]
    rfl
  rw [Tree.locate_of_proper proper (by simp), if_neg (by simp [noNul]),
    if_neg (by omega), Tree.start, if_pos rfl, walked]
  rfl

private theorem read_of_absent
    (missing : tree.locate .follow path = .error (.system .noEntry)) :
    read tree path room = .ok (.object []) :=
  (Holds.missing (by simp [Tree.Missing, Tree.stat, missing])).read_eq

def hiddenNotes : Path := ⟨0, ["a".toList, "..".toList, Tree.longName]⟩

def hiddenNote : Json := .object [(toPoints "x".toList, .object [])]

def hidden : Tree := .single Tree.longName "\x7b\"x\": \x7b\x7d\x7d".toList

def shown : Tree := hidden.set ["a".toList] Tree.newDirectory

private theorem enters_hidden (ending : Tree.Ending) (names : List Text) :
    hidden.Enters ending [] "a".toList ("..".toList :: names) :=
  ⟨rfl, rfl, by decide, by simp, by decide⟩

private theorem proper_hiddenNotes :
    hiddenNotes.Proper ∧ hiddenNotes.hasNul = false := by
  refine Path.proper_of_names fun name mem => ?_
  simp only [hiddenNotes, List.mem_cons, List.not_mem_nil, or_false] at mem
  rcases mem with rfl | rfl | rfl
  · exact .inl (by decide)
  · exact .inr rfl
  · exact .inl Tree.isName_longName

private theorem short_hiddenNotes :
    Utf8.size hiddenNotes.toText ≤ Tree.maxPath := by
  change Utf8.size ("a/../".toList ++ Tree.longName) ≤ _
  rw [Utf8.size_append, Tree.size_longName]
  decide

private theorem read_hidden : read hidden hiddenNotes = .ok (.object []) :=
  read_of_absent (locate_of_absent proper_hiddenNotes.1 proper_hiddenNotes.2
    short_hiddenNotes (enters_hidden _ _) rfl)

/-- Once the directory is there, the double dots behind it lead out of it. -/
private theorem leads_shown {ending : Tree.Ending} {names : List Text}
    {spot : Tree.Spot}
    (led : Tree.Leads shown ending Tree.maxLinks [] names spot) :
    Tree.Leads shown ending Tree.maxLinks [] ("a".toList :: "..".toList :: names)
      spot := by
  have enters : shown.Enters ending [] "a".toList ("..".toList :: names) :=
    ⟨rfl, rfl, by decide, by simp, by decide⟩
  exact .next enters (show shown.get? ["a".toList] = some Tree.newDirectory from
    rfl) (by rintro _ ⟨⟩) (.up rfl rfl led)

private theorem read_shown : read shown hiddenNotes = .ok hiddenNote := by
  have enters : shown.Enters .follow [] Tree.longName [] :=
    ⟨rfl, rfl, proper_of_isName Tree.isName_longName, by simp,
      by simp [Tree.size_longName, Tree.maxName]⟩
  have other : [Tree.longName] ≠ ["a".toList] := by
    intro same
    have sizes := congrArg (List.map Utf8.size) same
    rw [List.map_singleton, Tree.size_longName] at sizes
    exact absurd sizes (by decide)
  have found : shown.get? [Tree.longName] =
      some (.file (Utf8.encode "\x7b\"x\": \x7b\x7d\x7d".toList) 0o644) := by
    rw [shown, Tree.get?_set, if_neg other]
    simp [hidden, Tree.single, Tree.get?]
  have led := enters.leads (by simp [found]) Tree.maxLinks
  rw [List.nil_append, found] at led
  have located : shown.locate .follow hiddenNotes =
      .ok ⟨[Tree.longName],
        some (.file (Utf8.encode "\x7b\"x\": \x7b\x7d\x7d".toList) 0o644)⟩ := by
    refine Tree.locate_eq_ok_iff.2 ⟨proper_hiddenNotes.2, short_hiddenNotes, ?_⟩
    rw [proper_hiddenNotes.1.components_toText (by simp [hiddenNotes]),
      proper_hiddenNotes.1.origin_toText (by simp [hiddenNotes])]
    exact leads_shown led
  have parsed : parse "\x7b\"x\": \x7b\x7d\x7d".toList Json.usualRoom =
      .ok hiddenNote := by
    cbv
  exact Holds.read_eq
    (.file located (Entry.permits_read_file _) (Utf8.decode?_encode _) parsed)

private theorem makeDirectories_hidden :
    hidden.makeDirectories hiddenNotes.parent = (.ok (), shown) := by
  have outer : hidden.locate .keep hiddenNotes.parent = .error (.system .noEntry) :=
    locate_of_absent proper_hiddenNotes.1.parent (by decide) (by decide)
    (enters_hidden _ _) rfl
  have inner : hidden.makeDirectories hiddenNotes.parent.parent =
      (.ok (), shown) := by
    have enters : hidden.Enters .keep [] "a".toList [] :=
      (enters_hidden .keep []).change (by simp)
    have found : hidden.locate .keep hiddenNotes.parent.parent =
        .ok ⟨["a".toList], none⟩ :=
      Tree.locate_eq_ok_iff.2 ⟨by decide, by decide, .absent enters rfl⟩
    rw [Tree.makeDirectories, Tree.makeDirectory, Tree.addEntry, found]
    rfl
  have there (ending : Tree.Ending) :
      shown.locate ending hiddenNotes.parent = .ok ⟨[], shown.get? []⟩ :=
    Tree.locate_eq_ok_iff.2 ⟨by decide, by decide, leads_shown .stay⟩
  have exists' : shown.makeDirectory hiddenNotes.parent =
      (.error (.system .exists), shown) := by
    rw [Tree.makeDirectory, Tree.addEntry, there]
    rfl
  have directory : shown.isDirectory hiddenNotes.parent = .ok true := by
    rw [Tree.isDirectory, Tree.test, Tree.stat, there]
    rfl
  have failed : hidden.makeDirectory hiddenNotes.parent =
      (.error (.system .noEntry), hidden) := by
    rw [Tree.makeDirectory, Tree.addEntry, outer]
  rw [Tree.makeDirectories, failed]
  simp only [inner, exists', Tree.acceptDirectory, directory]
  rfl

private theorem createTemporary_shown :
    shown.createTemporary hiddenNotes = .error (.system .nameTooLong) := by
  have directory : shown.temporaryDirectory hiddenNotes = [] := rfl
  have located :
      shown.locate .follow (Path.ofPlace (shown.temporaryDirectory hiddenNotes)) =
        .ok ⟨[], shown.get? []⟩ := by
    rw [directory]
    exact (Tree.locate_ofPlace_iff (by simp)).2 ⟨by decide, .stay⟩
  refine Tree.createTemporary_of_long proper_hiddenNotes.1 proper_hiddenNotes.2
    located ?_ rfl rfl ?_
  · simp [directory]
  · change Tree.maxName < Utf8.size Tree.longName + 14
    simp [Tree.size_longName, Tree.maxName]

private theorem replace_hidden :
    replace hidden hiddenNotes oneNote = (.error .storage, shown) := by
  have shallow : oneNote.depth ≤ Json.usualRoom := by decide
  rw [replace, show check oneNote = .ok () from rfl]
  simp only [makeDirectories_hidden, if_pos shallow, Tree.writeAtomic,
    createTemporary_shown]

def remoteName : Text := List.replicate 300 'n'

def remoteNotes : Path := ⟨0, ["new".toList, remoteName]⟩

private theorem isName_remoteName :
    isName remoteName = true := Tree.isName_replicate (by decide)

private theorem size_remoteName :
    Utf8.size remoteName = 300 := Utf8.size_replicate 300 'n'

private theorem proper_remoteNotes :
    remoteNotes.Proper ∧ remoteNotes.hasNul = false :=
  proper_new isName_remoteName

private theorem short_remoteNotes :
    Utf8.size remoteNotes.toText ≤ Tree.maxPath := by
  change Utf8.size ("new/".toList ++ remoteName) ≤ _
  rw [Utf8.size_append, size_remoteName]
  decide

private theorem read_remote : read ⟨[], []⟩ remoteNotes = .ok (.object []) := by
  have enters : (⟨[], []⟩ : Tree).Enters .follow [] "new".toList [remoteName] :=
    ⟨rfl, rfl, by decide, by simp, by decide⟩
  exact read_of_absent (locate_of_absent proper_remoteNotes.1 proper_remoteNotes.2
    short_remoteNotes enters rfl)

private theorem read_made :
    read made remoteNotes = .error (.system .nameTooLong) := by
  have enters : made.Enters .follow [] "new".toList [] :=
    ⟨rfl, rfl, by decide, by simp, by decide⟩
  have led : Tree.Leads made .follow Tree.maxLinks [] ["new".toList]
      ⟨["new".toList], _⟩ :=
    .next enters (show made.get? ["new".toList] = some Tree.newDirectory from rfl)
      (by rintro _ ⟨⟩) .stay
  have walked := led.walk_of_long rfl rfl isName_remoteName
    (by simp [size_remoteName, Tree.maxName]) (show Tree.Ending.follow ≠
      .create by simp)
  have located : made.locate .follow remoteNotes =
      .error (.system .nameTooLong) := by
    rw [Tree.locate_of_proper proper_remoteNotes.1 (by simp [remoteNotes]),
      if_neg (by simp [proper_remoteNotes.2]),
      if_neg (Nat.not_lt.2 short_remoteNotes)]
    change (made.walk .follow Tree.maxLinks [] (["new".toList] ++
      [remoteName])).mapError _ = _
    rw [walked]
    rfl
  rw [read_eq, Tree.doesExist, Tree.test, Tree.stat, located]
  rfl

private theorem replace_remote :
    replace ⟨[], []⟩ remoteNotes oneNote = (.error .storage, made) :=
  replace_made isName_remoteName (by simp [size_remoteName, Tree.maxName])

/-- A write that is refused makes the directories above the notes.  Double dots
behind one of them lead to another file then, and a name that is too long is
found to be so. -/
theorem run_reads_other :
    run Json.usualRoom hiddenNotes hidden [.read, .replace oneNote, .read] =
        [.got (.ok (.object [])), .replaced oneNote (.error .storage),
          .got (.ok hiddenNote)] ∧
      hiddenNote ≠ .object [] ∧
      run Json.usualRoom remoteNotes ⟨[], []⟩ [.read, .replace oneNote, .read] =
        [.got (.ok (.object [])), .replaced oneNote (.error .storage),
          .got (.error (.system .nameTooLong))] := by
  refine ⟨?_, by simp [hiddenNote], ?_⟩
  · simp only [run, Call.run, read_hidden, replace_hidden, read_shown]
  · simp only [run, Call.run, read_remote, replace_remote, read_made]

end Showcase.Notes

import Showcase.Proofs.Json.Faults
import Showcase.Proofs.Notes.LastWrite

/-!
# Reading any bytes

Whatever bytes the notes file holds, what is read of it is an object, or the
storage is at fault, or an integer of more than 4300 digits stands in it, or
more brackets open in it than there is room for on the stack (`read_of_bytes`).
The last two are no faults of the storage (`read_digitsTree`,
`read_bracketsTree`).
-/

namespace Showcase.Notes

open Files

variable {tree : Tree} {path : Path} {content : ByteArray} {mode : Nat}
  {text : Text} {room : Nat}

/-! ## What a text holds -/

private theorem isBlank_of_isDigit {c : Char} (h : c.isDigit = true) :
    isBlank c = false := by
  have range : 48 ≤ c.toNat ∧ c.toNat ≤ 57 := by
    simpa [Char.isDigit, UInt32.le_iff_toNat_le] using h
  simp only [isBlank, covers, blankRanges, List.any_cons, List.any_nil,
    Bool.or_false,
    Bool.or_eq_false_iff, Bool.and_eq_false_iff, decide_eq_false_iff_not]
  omega

private theorem notBlank_of_longInteger
    (h : Json.read text room = .error .longInteger) :
    text.all isBlank = false := by
  obtain ⟨digits, rest, tail, inside, long⟩ := Json.exists_of_read_longInteger h
  obtain ⟨digit, mem⟩ :=
    List.exists_mem_of_length_pos (Nat.lt_of_le_of_lt (Nat.zero_le _) long.long)
  have standing : digit ∈ text :=
    inside.subset (by rw [long.text_eq]; exact List.mem_append_left _ mem)
  exact List.all_eq_false.2 ⟨digit, standing,
    by simp [isBlank_of_isDigit (long.isDigit digit mem)]⟩

private theorem notBlank_of_tooDeep (h : Json.read text room = .error .tooDeep) :
    text.all isBlank = false := by
  obtain ⟨c, mem, opening⟩ := List.countP_pos_iff.1
    (Nat.lt_of_le_of_lt (Nat.zero_le room) (Json.lt_openings_of_read_tooDeep h))
  have notBlank : isBlank c = false := by
    simp only [Json.isOpening, Bool.or_eq_true, beq_iff_eq] at opening
    rcases opening with rfl | rfl <;> decide
  exact List.all_eq_false.2 ⟨c, mem, by simp [notBlank]⟩

private theorem parse_eq_longInteger_iff :
    parse text room = .error .longInteger ↔
      Json.read text room = .error .longInteger := by
  constructor
  · intro failed
    unfold parse at failed
    split at failed
    · simp at failed
    · split at failed <;> simp_all
  · intro failed
    simp [parse, notBlank_of_longInteger failed, failed]

private theorem parse_eq_recursion_iff :
    parse text room = .error .recursion ↔
      Json.read text room = .error .tooDeep := by
  constructor
  · intro failed
    unfold parse at failed
    split at failed
    · simp at failed
    · split at failed <;> simp_all
  · intro failed
    simp [parse, notBlank_of_tooDeep failed, failed]

private theorem parse_eq_ok_iff {mapping : Json} :
    parse text room = .ok mapping ↔ ∃ members, mapping = .object members ∧
      (text.all isBlank = true ∧ members = [] ∨
        text.all isBlank = false ∧
        Json.read text room = .ok (.object members)) := by
  unfold parse
  split
  next blank => simp [blank, eq_comm]
  next notBlank =>
    split
    next failed => simp [notBlank, failed]
    next failed => simp [notBlank, failed]
    next failed => simp [notBlank, failed]
    next members read => simp [notBlank, read, eq_comm]
    next other noObject read =>
      simp only [reduceCtorEq, false_iff]
      rintro ⟨members, -, ⟨blank, -⟩ | ⟨-, same⟩⟩
      · exact notBlank blank
      · exact noObject members (Except.ok.inj (read.symm.trans same))

private theorem parse_failure {failure : Failure}
    (h : parse text room = .error failure) :
    failure = .storage ∨ failure = .longInteger ∨ failure = .recursion := by
  unfold parse at h
  split at h
  · simp at h
  · split at h <;> simp_all

/-! ## What a file holds -/

private theorem read_of_file (there : tree.stat path = .ok (.file content mode))
    (room : Nat) :
    read tree path room =
      if (Entry.file content mode).permits .read = true then
        match Utf8.decode? content with
        | some text => parse text room
        | none => .error .storage
      else .error .storage := by
  rw [read_eq, Tree.doesExist_of_stat there, ok_bind, if_pos rfl]
  split
  next readable =>
    rw [Tree.readText_of_stat there readable]
    cases Utf8.decode? content <;> rfl
  next closed =>
    rw [Tree.readText_of_closed there (.inr (by simpa using closed)), error_bind]

/-- For every content of the notes file and every room on the stack: what is
read is an object, or the storage is at fault, or an integer is too long, or
there is no room.  It is an object exactly if the bytes can be read and are the
writing of it or blank, and one of the last two exactly if the reader of the
values finds it so.  Then an integer of more than 4300 digits stands in the
file, or more brackets open in it than there is room for. -/
theorem read_of_bytes (there : tree.stat path = .ok (.file content mode))
    (room : Nat) :
    ((∃ members, read tree path room = .ok (.object members)) ∨
      read tree path room = .error .storage ∨
      read tree path room = .error .longInteger ∨
        read tree path room = .error .recursion) ∧
    (∀ members, read tree path room = .ok (.object members) ↔
      (Entry.file content mode).permits .read = true ∧
      ∃ text, Utf8.decode? content = some text ∧
        (text.all isBlank = true ∧ members = [] ∨
          text.all isBlank = false ∧ Json.read text room = .ok (.object members))) ∧
    (read tree path room = .error .longInteger ↔
      (Entry.file content mode).permits .read = true ∧
        ∃ text, Utf8.decode? content = some text ∧
        Json.read text room = .error .longInteger) ∧
    (read tree path room = .error .recursion ↔
      (Entry.file content mode).permits .read = true ∧
        ∃ text, Utf8.decode? content = some text ∧
        Json.read text room = .error .tooDeep) ∧
    (read tree path room = .error .longInteger → ∃ text digits rest tail,
      Utf8.decode? content = some text ∧ tail <:+ text ∧
        Json.BeginsLong tail digits rest) ∧
    (read tree path room = .error .recursion → ∃ text,
      Utf8.decode? content = some text ∧ room < Json.openings text) := by
  rw [read_of_file there]
  split
  next readable =>
    cases decoded : Utf8.decode? content with
    | none => simp
    | some text =>
        dsimp only
        refine ⟨?_, fun members => ?_, ?_, ?_, fun failed => ?_, fun failed => ?_⟩
        · cases parsed : parse text room with
          | ok mapping =>
              obtain ⟨members, rfl, -⟩ := parse_eq_ok_iff.1 parsed
              simp
          | error failure => rcases parse_failure parsed with
              rfl | rfl | rfl <;> simp
        · simp [parse_eq_ok_iff, readable]
        · simp [parse_eq_longInteger_iff, readable]
        · simp [parse_eq_recursion_iff, readable]
        · obtain ⟨digits, rest, tail, inside, long⟩ :=
            Json.exists_of_read_longInteger (parse_eq_longInteger_iff.1 failed)
          exact ⟨text, digits, rest, tail, rfl, inside, long⟩
        · exact ⟨text, rfl,
            Json.lt_openings_of_read_tooDeep (parse_eq_recursion_iff.1 failed)⟩
  next closed => simp [closed]

theorem read_of_bytes_plainNotes :
    read plainTree plainNotes = .ok (.object []) := by
  have there := Tree.stat_of_file locate_plainNotes
  exact ((read_of_bytes there _).2.1 []).2 ⟨by decide, "\x7b\x7d".toList,
    Utf8.decode?_encode _, .inr ⟨by decide, rfl⟩⟩

/-! ## An integer of 4301 digits -/

private theorem beginsLong_replicate {n : Nat} (long : 4300 < n) :
    Json.BeginsLong (List.replicate n '1' ++ ['\x7d']) (List.replicate n '1')
      ['\x7d'] where
  text_eq := rfl
  isDigit c mem := by rw [(List.mem_replicate.1 mem).2]; rfl
  nonzero := by
    cases n with
    | zero => simp at long
    | succ n => simp [List.replicate_succ]
  long := by rwa [List.length_replicate]
  ends := by simp
  noFraction := rfl
  noExponent := rfl

def manyDigits : Text :=
  '\x7b' :: '"' :: 'a' :: '"' :: ':' :: (List.replicate 4301 '1' ++ ['\x7d'])

private theorem read_manyDigits : Json.read manyDigits = .error .longInteger :=
  (beginsLong_replicate (by decide)).read_member_eq _

def digitsTree : Tree := .single "notes.json".toList manyDigits

/-- What is read of them is neither an object nor a fault of the storage. -/
theorem read_digitsTree :
    digitsTree.stat plainNotes = .ok (.file (Utf8.encode manyDigits) 0o644) ∧
      ¬((∃ members, read digitsTree plainNotes = .ok (.object members)) ∨
        read digitsTree plainNotes = .error .storage) := by
  have there : digitsTree.stat plainNotes =
      .ok (.file (Utf8.encode manyDigits) 0o644) :=
    Tree.stat_of_file (Tree.locate_single (by decide) (by decide) manyDigits)
  refine ⟨there, ?_⟩
  rw [read_of_file there, if_pos (by decide), Utf8.decode?_encode]
  simp [parse_eq_longInteger_iff.2 read_manyDigits]

/-! ## Nothing but brackets -/

/-- As many brackets as there is room for, and one more. -/
def bracketsTree (room : Nat) : Tree :=
  .single "notes.json".toList (List.replicate (room + 1) '[')

/-- What is read of them is no fault of the storage either. -/
theorem read_bracketsTree (room : Nat) :
    read (bracketsTree room) plainNotes room = .error .recursion := by
  have there : (bracketsTree room).stat plainNotes =
      .ok (.file (Utf8.encode (List.replicate (room + 1) '[')) 0o644) :=
    Tree.stat_of_file (Tree.locate_single (by decide) (by decide) _)
  have tooDeep := Json.read_brackets room []
  rw [List.append_nil] at tooDeep
  rw [read_of_file there, if_pos (Entry.permits_read_file _), Utf8.decode?_encode]
  exact parse_eq_recursion_iff.2 tooDeep

end Showcase.Notes

import Showcase.Command
import Showcase.Proofs.Files.Renewal

/-!
# The lifetime of a PID file

A run ends at once if the PID file names a running process.  A stale file is
replaced for as long as the service is up, and nothing is left of it when the
run ends, however that is (`run_takes_over`).
-/

namespace Showcase

open Files

/-! ## What a PID file says -/

namespace PidFile

/-- The content names a process that is running. -/
def Live (processes : Processes) (content : ByteArray) (pid : Int) : Prop :=
  parse? content = some pid ∧ isProcessId pid = true ∧
    processes.isRunning pid = true

/-- The content names an id that no process can have. -/
def Beyond (content : ByteArray) : Prop :=
  ∃ pid, parse? content = some pid ∧ isProcessId pid = false

theorem Live.eq {processes : Processes} {content : ByteArray} {pid pid' : Int}
    (live : Live processes content pid) (live' : Live processes content pid') :
    pid = pid' :=
  Option.some.inj (live.1.symm.trans live'.1)

private theorem Live.not_beyond {processes : Processes} {content : ByteArray}
    {pid : Int} (live : Live processes content pid) : ¬ Beyond content := by
  rintro ⟨pid', parsed, noId⟩
  obtain rfl : pid = pid' := Option.some.inj (live.1.symm.trans parsed)
  simp [live.2.1] at noId

variable {tree : Tree} {path : Path} {place : Place} {content : ByteArray}
  {mode : Nat}

theorem remove_eq (h : tree.Clearable path place) :
    remove tree path = (.ok (), tree.erase place) := by
  rw [remove, h.doesExist_eq]
  cases there : tree.get? place with
  | none => rw [Option.isSome_none, Tree.erase_eq_of_unused there]
  | some entry => exact h.unlink_eq there

private theorem discard_eq (h : tree.Clearable path place) :
    discard tree path = (.ok none, tree.erase place) := by
  rw [discard, remove_eq h]
  rfl

theorem check_cases (h : tree.Clearable path place)
    (there : tree.get? place = some (.file content mode))
    (readable : (Entry.file content mode).permits .read = true)
    (processes : Processes) :
    (∃ pid, Live processes content pid ∧
      check tree processes path = (.ok (some pid), tree)) ∨
      (Beyond content ∧ check tree processes path = (.error .overflow, tree)) ∨
      ((∀ pid, ¬ Live processes content pid) ∧ ¬ Beyond content ∧
        check tree processes path = (.ok none, tree.erase place)) := by
  have found : tree.doesExist path = .ok true := by rw [h.doesExist_eq, there]; rfl
  simp only [check, found, h.readFile_eq there readable, discard_eq h]
  cases parsed : parse? content with
  | none =>
      exact .inr (.inr ⟨by simp [Live, parsed], by simp [Beyond, parsed], rfl⟩)
  | some pid =>
      dsimp only
      split
      next beyond => exact .inr (.inl ⟨⟨pid, parsed, beyond⟩, rfl⟩)
      next within =>
        have isId : isProcessId pid = true := by simpa using within
        split
        next running => exact .inl ⟨pid, ⟨parsed, isId, running⟩, rfl⟩
        next idle =>
          refine .inr (.inr ⟨?_, ?_, rfl⟩)
          · rintro pid' ⟨parsed', -, running⟩
            obtain rfl : pid = pid' := Option.some.inj (parsed.symm.trans parsed')
            exact idle running
          · rintro ⟨pid', parsed', beyond⟩
            obtain rfl : pid = pid' := Option.some.inj (parsed.symm.trans parsed')
            exact within beyond

/-- A file with the own process id. -/
def ownEntry (processes : Processes) : Entry :=
  .file (Utf8.encode (Nat.toDigits 10 processes.own)) 0o644

private theorem write_eq (h : tree.Clearable path place)
    (unused : tree.get? place = none) (processes : Processes) :
    write tree processes path = (.ok (), tree.set place (ownEntry processes)) := by
  rw [write, h.makeDirectories_eq]
  exact h.writeFile_eq unused _

end PidFile

/-! ## Runs -/

def Report.ofAnswer : Except Failure Unit → Report
  | .ok () => .success []
  | .error failure => .ofFailure failure

namespace Startup

open PidFile

variable {σ : Type}

/-- A run: the service is built by `create`, serves as `serve` says, and is
stopped however that has ended. -/
def run (create : Tree → Except Failure σ) (tree : Tree) (processes : Processes)
    (pidFile : Path) (serve : σ → Tree → Outcome Unit) : Report × Tree :=
  match startWith create tree processes pidFile with
  | (.error failure, after) => (.ofFailure failure, after)
  | (.ok (.occupied pid), after) => (.complaint (occupiedMessage pid), after)
  | (.ok (.ready station), started) =>
      let (answer, served) := serve station started
      match PidFile.remove served pidFile with
      | (.error failure, after) => (.ofFailure failure, after)
      | (.ok (), after) => (.ofAnswer answer, after)

/-- What comes of a service between the writing and the removal of its PID file. -/
def attempt (create : Tree → Except Failure σ) (tree : Tree)
    (serve : σ → Tree → Outcome Unit) :
    Outcome Unit :=
  match create tree with
  | .ok station => serve station tree
  | .error failure => (.error failure, tree)

/-- Whether serving leaves the place of the PID file to the file, if it is still
there. -/
def Spares (serve : σ → Tree → Outcome Unit) (path : Path) (place : Place) : Prop :=
  ∀ station tree, tree.Clearable path place →
    (serve station tree).2.Clearable path place

variable {create : Tree → Except Failure σ} {tree free : Tree}
  {processes : Processes} {path : Path} {place : Place} {content : ByteArray}
  {mode : Nat} {serve : σ → Tree → Outcome Unit}

private theorem attempt_clearable (create : Tree → Except Failure σ)
    (spares : Spares serve path place) (h : tree.Clearable path place) :
    (attempt create tree serve).2.Clearable path place := by
  unfold attempt
  split
  · exact spares _ _ h
  · exact h

/-- Where the PID file is missing or was stale, it is there during the attempt
and not afterwards. -/
private theorem run_of_free (create : Tree → Except Failure σ)
    (checked : check tree processes path = (.ok none, free))
    (h : free.Clearable path place) (unused : free.get? place = none)
    (spares : Spares serve path place) :
    run create tree processes path serve =
      (.ofAnswer (attempt create (free.set place (ownEntry processes)) serve).1,
        (attempt create (free.set place (ownEntry processes)) serve).2.erase
          place) := by
  have started : (free.set place (ownEntry processes)).Clearable path place :=
    h.set _ _
  simp only [run, startWith, checked, write_eq h unused, build, attempt]
  cases created : create (free.set place (ownEntry processes)) with
  | error failure => simp only [remove_eq started, Report.ofAnswer]
  | ok station => simp only [remove_eq (spares station _ started)]

/-- A run ends with the complaint exactly if the PID file names a running
process, and then touches nothing.  An id that no process can have is the only
content that makes it fail.  Any other file is replaced by one with the own
process id before the service is built, and there is none in the end. -/
theorem run_takes_over (create : Tree → Except Failure σ)
    (h : tree.Clearable path place)
    (there : tree.get? place = some (.file content mode))
    (readable : (Entry.file content mode).permits .read = true)
    (spares : Spares serve path place) (processes : Processes) :
    ((∃ pid, (run create tree processes path serve).1 =
      .complaint (occupiedMessage pid)) ↔
        ∃ pid, Live processes content pid) ∧
      (∀ pid, Live processes content pid →
        run create tree processes path serve =
          (.complaint (occupiedMessage pid), tree)) ∧
      (Beyond content → run create tree processes path serve =
        (.ofFailure .overflow, tree)) ∧
      ((∀ pid, ¬ Live processes content pid) → ¬ Beyond content →
        run create tree processes path serve =
            (.ofAnswer
              (attempt create (tree.set place (ownEntry processes)) serve).1,
              (attempt create (tree.set place (ownEntry processes)) serve).2.erase
                place) ∧
          (run create tree processes path serve).2.doesExist path = .ok false) := by
  rcases check_cases h there readable processes with
    ⟨pid, live, checked⟩ | ⟨beyond, checked⟩ | ⟨idle, within, checked⟩
  · have ended : run create tree processes path serve =
        (.complaint (occupiedMessage pid), tree) := by
      simp only [run, startWith, checked]
    refine ⟨iff_of_true ⟨pid, by rw [ended]⟩ ⟨pid, live⟩, fun pid' live' => ?_,
      fun beyond => absurd beyond live.not_beyond, fun idle =>
        absurd live (idle pid)⟩
    rw [live'.eq live, ended]
  · have ended : run create tree processes path serve =
        (.ofFailure .overflow, tree) := by
      simp only [run, startWith, checked]
    have idle (pid : Int) : ¬ Live processes content pid := fun live =>
      live.not_beyond beyond
    refine ⟨iff_of_false ?_ (by simpa using idle),
      fun pid live => absurd live (idle pid),
      fun _ => ended, fun _ within => absurd beyond within⟩
    simp [ended, Report.ofFailure, Report.complaint]
  · have ended := run_of_free create checked h.erase h.get?_erased spares
    rw [Tree.set_erase] at ended
    refine ⟨iff_of_false ?_ (by simpa using idle),
      fun pid live => absurd live (idle pid),
      fun beyond => absurd beyond within, fun _ _ => ⟨ended, ?_⟩⟩
    · rw [ended]
      cases (attempt create (tree.set place (ownEntry processes)) serve).1 <;>
        simp [Report.ofAnswer, Report.success, Report.ofFailure, Report.complaint]
    · have last := attempt_clearable create spares
        (h.set (Utf8.encode (Nat.toDigits 10 processes.own)) 0o644)
      rw [ended]
      exact last.erase.doesExist_eq.trans (by rw [last.get?_erased]; rfl)

/-! ## A PID file in the root directory -/

def pidFile : Path := ⟨0, ["g.pid".toList]⟩

def pidTree (text : Text) : Tree :=
  ⟨[(["g.pid".toList], .file (Utf8.encode text) 0o644)], []⟩

/-- The own process, and the id for all processes of a group. -/
def pidProcesses : Processes := ⟨7, fun pid => pid == 7 || pid == 0⟩

private theorem clearable_pidTree (text : Text) :
    (pidTree text).Clearable pidFile ["g.pid".toList] := by
  have located : (pidTree text).locate .keep pidFile =
      .ok ⟨["g.pid".toList], (pidTree text).get? ["g.pid".toList]⟩ :=
    Tree.locate_single (by decide) (by decide) text
  refine ⟨?_, by decide, located, ?_, rfl⟩
  · unfold Path.Proper
    decide
  · rintro entry ⟨⟩
    rfl

/-- A service that can be built, and is stopped at once. -/
def built : Tree → Except Failure Unit := fun _ => .ok ()

def stopped : Unit → Tree → Outcome Unit := fun _ tree => (.ok (), tree)

private theorem spares_stopped (path : Path) (place : Place) :
    Spares stopped path place := fun _ _ h => h

private theorem parse?_encode (text : Text) :
    parse? (Utf8.encode text) = Integer.parse? (strip text) := by
  rw [parse?, Utf8.decode?_encode, Option.bind_some]

def twoNumbers : Text := "12 34".toList

theorem run_takes_over_twoNumbers :
    (∃ answer, (run built (pidTree twoNumbers) pidProcesses pidFile stopped).1 =
      .ofAnswer answer) ∧
      (run built (pidTree twoNumbers) pidProcesses pidFile stopped).2.doesExist
        pidFile = .ok false := by
  have noId : parse? (Utf8.encode twoNumbers) = none := by
    rw [parse?_encode]
    decide
  obtain ⟨-, -, -, stale⟩ := run_takes_over built (clearable_pidTree twoNumbers) rfl
    (Entry.permits_read_file _) (spares_stopped _ _) pidProcesses
  obtain ⟨ended, gone⟩ := stale (fun pid live => by simp [live.1] at noId)
    (fun ⟨pid, parsed, _⟩ => by simp [parsed] at noId)
  exact ⟨⟨_, by rw [ended]⟩, gone⟩

/-- Fourteen digits. -/
def manyNines : Text := "99999999999999".toList

/-- An id beyond 32 bits is not taken for a stale one: the run fails and leaves
the file. -/
theorem run_manyNines :
    run built (pidTree manyNines) pidProcesses pidFile stopped =
      (.ofFailure .overflow, pidTree manyNines) := by
  have beyond : Beyond (Utf8.encode manyNines) := by
    refine ⟨99999999999999, ?_, by decide⟩
    rw [parse?_encode]
    decide
  rcases check_cases (clearable_pidTree manyNines) rfl (Entry.permits_read_file _)
    pidProcesses with
    ⟨pid, live, -⟩ | ⟨-, checked⟩ | ⟨-, within, -⟩
  · exact absurd beyond live.not_beyond
  · simp only [run, startWith, checked]
  · exact absurd beyond within

end Startup

end Showcase

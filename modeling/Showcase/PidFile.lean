import Showcase.Files.Change
import Showcase.Text.Integer

/-!
# PID files

A running service keeps its process id in a file, so that a second one can see
that it is there.  A file that names no running process is stale, whatever else
it holds, and is removed.
-/

namespace Showcase

open Files

/-- The processes that a service can see: its own id, and whether a signal
would reach the process with an id. -/
structure Processes where
  own : Nat
  isRunning : Int → Bool

namespace PidFile

/-- The ids that the system can be asked about: the integers of 32 bits. -/
def isProcessId (n : Int) : Bool := -0x80000000 ≤ n && n < 0x80000000

def parse? (content : ByteArray) : Option Int :=
  (Utf8.decode? content).bind fun text => Integer.parse? (strip text)

def remove (tree : Tree) (path : Path) : Outcome Unit :=
  match tree.doesExist path with
  | .error failure => (.error failure, tree)
  | .ok false => (.ok (), tree)
  | .ok true => tree.unlink path

def discard (tree : Tree) (path : Path) : Outcome (Option Int) :=
  let (answer, after) := remove tree path
  (answer.map fun _ => none, after)

def check (tree : Tree) (processes : Processes) (path : Path) :
    Outcome (Option Int) :=
  match tree.doesExist path with
  | .error failure => (.error failure, tree)
  | .ok false => (.ok none, tree)
  | .ok true =>
      match tree.readFile path with
      | .error failure => (.error failure, tree)
      | .ok content =>
          match parse? content with
          | none => discard tree path
          | some pid =>
              if isProcessId pid = false then (.error .overflow, tree)
              else if processes.isRunning pid then (.ok (some pid), tree)
              else discard tree path

def write (tree : Tree) (processes : Processes) (path : Path) : Outcome Unit :=
  match tree.makeDirectories path.parent with
  | (.error failure, after) => (.error failure, after)
  | (.ok (), after) =>
      after.writeFile path (Utf8.encode (Nat.toDigits 10 processes.own))

end PidFile

end Showcase

import Showcase.Http.Service
import Showcase.PidFile
import Showcase.Settings

/-!
# Starting the service

A service starts only if its PID file names no running process.  It writes its
own id before it is built, and the file is gone again when it stops or when it
cannot be built.
-/

namespace Showcase

open Files

structure Station where
  service : Http.Service
  hosts : List Text
  port : Nat
  deriving DecidableEq, Repr

namespace Station

def hostsOf (value : Toml.Value) : Except Failure (List Text) :=
  let text := fun
    | Toml.Value.string host => Except.ok host
    | _ => .error Failure.wrongType
  match value with
  | .array elements => elements.mapM text
  | .table members => .ok (members.map (·.1))
  | value => (text value).map ([·])

def portOf (n : Int) : Except Failure Nat :=
  if 0 ≤ n ∧ n < 0x10000 then .ok n.toNat else .error .overflow

def create (tree : Tree) (settings : Settings) : Except Failure Station := do
  let catalogue ← (← settings.catalogue).opened tree
  let pathPrefix ← match settings.routePrefix with
    | .string text => pure text
    | _ => .error .noMember
  let service ← Http.Service.create tree catalogue settings.notes pathPrefix
  return ⟨service, ← hostsOf settings.host, ← portOf settings.port⟩

end Station

/-- How a start ends that no failure prevents. -/
inductive Startup (σ : Type) where
  | occupied (pid : Int)
  | ready (station : σ)
  deriving DecidableEq, Repr

namespace Startup

section

variable {σ : Type} (create : Tree → Except Failure σ)

/-- Builds the service once its PID file is written, and removes the file if
the service cannot be built. -/
def build (tree : Tree) (pidFile : Path) : Outcome (Startup σ) :=
  match create tree with
  | .ok station => (.ok (.ready station), tree)
  | .error failure =>
      match PidFile.remove tree pidFile with
      | (.ok (), after) => (.error failure, after)
      | (.error failure, after) => (.error failure, after)

def startWith (tree : Tree) (processes : Processes) (pidFile : Path) :
    Outcome (Startup σ) :=
  match PidFile.check tree processes pidFile with
  | (.error failure, after) => (.error failure, after)
  | (.ok (some pid), after) => (.ok (.occupied pid), after)
  | (.ok none, free) =>
      match PidFile.write free processes pidFile with
      | (.error failure, after) => (.error failure, after)
      | (.ok (), written) => build create written pidFile

end

def start (tree : Tree) (processes : Processes) (settings : Settings) :
    Outcome (Startup Station) :=
  startWith (Station.create · settings) tree processes settings.pidFile

def stop (tree : Tree) (settings : Settings) : Outcome Unit :=
  PidFile.remove tree settings.pidFile

def occupiedMessage (pid : Int) : Text :=
  "Gallery server already running (pid=".toList ++ Json.integer pid ++
    "). Exiting.".toList

end Startup

end Showcase

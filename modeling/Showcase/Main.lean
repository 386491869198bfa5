import Showcase.Command
import Showcase.Disk
import Std.Http.Server

/-!
# The program

The program finds out what is around it, hands that to `Command.run` and does
what the answer says.  A started service answers requests until the process is
told to terminate.
-/

namespace Showcase

open Files Std.Async

def variableNames : List String :=
  ["GALLERY_VERSIONS_DIR", "GALLERY_REGISTRY_FILE", "GALLERY_NOTES_FILE",
    "GALLERY_HOST",
   "GALLERY_PORT", "GALLERY_PID_FILE", "GALLERY_LOG_LEVEL"]

def surroundings : IO Environment := do
  let assigned ← variableNames.filterMapM fun name => do
    return (← IO.getEnv name).map (name.toList, ·.toList)
  return ⟨assigned, Path.parse ((← IO.getEnv "HOME").getD "/").toList⟩

def processes : IO Processes := do
  let listed ← ((← IO.currentDir) / "/proc").readDir
  let running := listed.toList.filterMap fun entry =>
    Integer.parse? entry.fileName.toList
  let own := (← IO.FS.readFile "/proc/self/stat").toList.takeWhile Char.isDigit
  return ⟨(Integer.unsigned? own).getD 0, (0 :: running).contains⟩

def loadNamed (tree : Tree) (settings : Settings) : IO Tree := do
  let registry := settings.registry.toOption.getD settings.versions
  let tree ← Disk.loadDirectory tree settings.versions
  [registry, settings.notes, settings.pidFile].foldlM Disk.loadPath tree

/-- The part of the file system that a command can need. -/
def snapshot (environment : Environment) : IO Tree := do
  let tree : Tree := ⟨[], (Path.parse (← IO.currentDir).toString.toList).parts⟩
  let tree ← Disk.loadPath tree Settings.fileName
  let tree ← Disk.loadPath tree
    ((Settings.homeDirectory environment).join Settings.fileName)
  match Settings.load tree environment none with
  | .ok settings => loadNamed tree settings
  | .error _ => return tree

def finish (report : Report) : IO UInt32 := do
  IO.print (String.ofList report.output)
  IO.eprint (String.ofList report.errors)
  match report.failure? with
  | some failure => IO.eprintln s!"error: {reprStr failure}"
  | none => pure ()
  return report.exit.toUInt32

/-! ## Serving -/

def replyTo (service : Http.Service) (settings : Settings)
    (request : Http.Request) :
    IO Http.Reply := do
  let tree ← loadNamed ⟨[], (Path.parse (← IO.currentDir).toString.toList).parts⟩
    settings
  let (reply, after) := service.respond tree request
  Disk.store tree after
  return reply

def handler (settings : Settings) (service : Http.Service) (lock : Std.Mutex Unit) :
    Std.Http.Server.StatelessHandler :=
  Std.Http.Server.Handler.ofFn fun request => do
    let body : ByteArray ← request.body.readAll
    let message : Http.Request :=
      ⟨(toString request.line.method).toList, (toString request.line.uri).toList,
        body⟩
    let reply ← lock.atomically (replyTo service settings message)
    let status := (Std.Http.Status.ofCode none reply.status.toUInt16).getD
      .internalServerError
    let head := Std.Http.Response.withStatus status
    let head :=
      (head.header? "Content-Type" (String.ofList reply.contentType)).getD head
    let head := match reply.allow? with
      | some methods => (head.header? "Allow" (String.ofList methods)).getD head
      | none => head
    return ← head.fromBytes (Utf8.encode reply.body)

/-- The addresses of a host, an empty name standing for all of them. -/
def addresses (host : Text) (port : Nat) : Async (List Std.Net.SocketAddress) := do
  let name := if host.isEmpty then "0.0.0.0" else String.ofList host
  let found ← DNS.getAddrInfo name (toString port)
  return found.toList.map fun
    | .v4 address => .v4 ⟨address, port.toUInt16⟩
    | .v6 address => .v6 ⟨address, port.toUInt16⟩

/-- Answers requests until a signal asks the process to end. -/
def serve (settings : Settings) (station : Station) : Async Unit := do
  let lock ← Std.Mutex.new ()
  let terminate ← Signal.Waiter.mk .sigterm false
  let interrupt ← Signal.Waiter.mk .sigint false
  for host in station.hosts do
    for address in (← addresses host station.port).take 1 do
      let _ ← Std.Http.Server.serve address (handler settings station.service lock)
  Selectable.one #[.case terminate.selector fun _ => pure (),
    .case interrupt.selector fun _ => pure ()]

def runStation (settings : Settings) (station : Station) : IO UInt32 := do
  try (serve settings station).block
  finally
    let tree ← loadNamed ⟨[],
      (Path.parse (← IO.currentDir).toString.toList).parts⟩ settings
    Disk.store tree (Startup.stop tree settings).2
  return 0

end Showcase

open Showcase in
def main (arguments : List String) : IO UInt32 := do
  let environment ← surroundings
  let tree ← snapshot environment
  let (result, after) :=
    Command.run tree environment (← processes) (arguments.map String.toList)
  Disk.store tree after
  match result with
  | .finished report => finish report
  | .serving settings station => runStation settings station

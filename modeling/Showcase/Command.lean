import Showcase.Startup
import Showcase.Toml.Display

/-!
# The command line

`list` shows the versions of the registry, `serve` starts the service, and any
other word is answered by a usage text.
-/

namespace Showcase

open Files

inductive Command where
  | serve
  | list
  | usage
  deriving DecidableEq, Repr

/-- What a command leaves behind: its exit code, what it printed and the
failure that it did not handle, if any. -/
structure Report where
  exit : Nat
  output : Text
  errors : Text
  failure? : Option Failure
  deriving DecidableEq, Repr

namespace Report

def success (output : Text) : Report := ⟨0, output, [], none⟩

def complaint (errors : Text) : Report := ⟨1, [], errors ++ ['\n'], none⟩

def ofFailure (failure : Failure) : Report := ⟨1, [], [], some failure⟩

end Report

namespace Command

def ofArguments (arguments : List Text) : Command :=
  match arguments.head?.map String.ofList with
  | none | some "serve" => serve
  | some "list" | some "ls" => list
  | some _ => usage

def usageText : Text :=
  ("Usage: python -m gallery [serve|list]\n"
    ++ "  serve  — HTTP API for notes and version edits (default)\n"
    ++ "  list   — Print the version registry\n").toList

/-! ## Listing -/

def padded (width : Nat) (text : Text) : Text :=
  text ++ List.replicate (width - text.length) ' '

/-- The line of a version: id, type and title, with a dash for a type that is
absent or empty. -/
def versionLine (version : Version) : Text :=
  let type := match version.type? with
    | some (c :: cs) => c :: cs
    | _ => ['-']
  padded 12 version.id ++ ' ' :: padded 8 type ++ ' ' :: version.title?.getD [] ++
    ['\n']

def versionLines (versions : List Version) : Text :=
  match versions with
  | [] => "No versions yet.\n".toList
  | versions => versions.flatMap versionLine

/-- The failure to find a list, with the list's name as the settings have it.  A
name that cannot be written is a failure of its own. -/
def named (settings : Settings) (failure : Failure) : Failure :=
  match failure with
  | .registry (.listNotFound _) =>
      if settings.listName.isWritable then
        .registry (.listNotFound settings.listName.display)
      else .longInteger
  | failure => failure

def listReport (tree : Tree) (environment : Environment) : Report :=
  let opened := do
    let settings ← Settings.load tree environment none
    settings.checkLogLevel
    let catalogue ← (← settings.catalogue).opened tree
    return (settings, catalogue)
  match opened with
  | .error failure => .ofFailure failure
  | .ok (settings, catalogue) =>
      match catalogue.list tree with
      | .ok versions => .success (versionLines versions)
      | .error failure =>
          let failure := named settings failure
          if failure.category?.isSome then
            .complaint ("Cannot read registry: ".toList ++ failure.message)
          else .ofFailure failure

/-! ## Running -/

inductive Result where
  | finished (report : Report)
  | serving (settings : Settings) (station : Station)

def serveResult (tree : Tree) (environment : Environment) (processes : Processes) :
    Result × Tree :=
  let loaded := do
    let settings ← Settings.load tree environment none
    settings.checkLogLevel
    return settings
  match loaded with
  | .error failure => (.finished (.ofFailure failure), tree)
  | .ok settings =>
      match Startup.start tree processes settings with
      | (.error failure, after) => (.finished (.ofFailure failure), after)
      | (.ok (.occupied pid), after) =>
          (.finished (.complaint (Startup.occupiedMessage pid)), after)
      | (.ok (.ready station), after) => (.serving settings station, after)

def run (tree : Tree) (environment : Environment) (processes : Processes)
    (arguments : List Text) : Result × Tree :=
  match ofArguments arguments with
  | serve => serveResult tree environment processes
  | list => (.finished (listReport tree environment), tree)
  | usage => (.finished ⟨1, usageText, [], none⟩, tree)

end Command

end Showcase

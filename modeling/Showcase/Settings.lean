import Showcase.Catalogue
import Showcase.Text.Integer
import Showcase.Toml.Document

/-!
# Settings

Settings come from the environment, from a settings file and from defaults, in
this order of precedence.  Paths and the port are converted when the settings
are loaded; any other value is kept as the file has it, and a type that cannot
be used shows only where the value is needed.
-/

namespace Showcase

open Files

structure Environment where
  assigned : List (Text × Text)
  home : Path
  deriving DecidableEq, Repr

structure Settings where
  versions : Path
  registryFile : Toml.Value
  listName : Toml.Value
  extensions : Toml.Value
  notes : Path
  host : Toml.Value
  port : Int
  routePrefix : Toml.Value
  pidFile : Path
  logLevel : Toml.Value
  deriving BEq, Repr

namespace Settings

/-! ## The settings file -/

def fileName : Path := Path.parse "gallery.toml".toList

def homeDirectory (environment : Environment) : Path :=
  environment.home.join (Path.parse ".gallery".toList)

def firstExisting? (tree : Tree) : List Path → Except Failure (Option Path)
  | [] => .ok none
  | path :: paths => do
      if ← tree.doesExist path then return some path else firstExisting? tree paths

/-- The settings file: the one asked for if it exists, else one in the current
directory or below the home directory. -/
def file? (tree : Tree) (environment : Environment) (asked? : Option Path) :
    Except Failure (Option Path) :=
  firstExisting? tree (asked?.toList
    ++ [(Path.ofPlace tree.here).join fileName,
      (homeDirectory environment).join fileName])

def unifyNewlines : Text → Text
  | [] => []
  | '\r' :: '\n' :: rest => '\n' :: unifyNewlines rest
  | c :: rest => (if c = '\r' then '\n' else c) :: unifyNewlines rest

def readMembers (tree : Tree) (path : Path) : Except Failure Toml.Members := do
  match Utf8.decode? (← tree.readFile path) with
  | none => .error .undecodable
  | some text =>
      match Toml.read (unifyNewlines text) with
      | .ok members => return members
      | .error .malformed => .error .malformedSettings
      | .error .longInteger => .error .longInteger

/-! ## Values -/

def sectionOf (members : Toml.Members) (name : String) :
    Except Failure Toml.Members :=
  match members.lookup name.toList with
  | none => .ok []
  | some (.table inner) => .ok inner
  | some _ => .error .noMember

def valueOf (members : Toml.Members) (name : String) (standard : Toml.Value) :
    Toml.Value :=
  (members.lookup name.toList).getD standard

/-- A variable of the environment takes precedence, even an empty one. -/
def override (environment : Environment) (name : String) (value : Toml.Value) :
    Toml.Value :=
  match environment.assigned.lookup name.toList with
  | some text => .string text
  | none => value

def toPath (value : Toml.Value) : Except Failure Path :=
  match value with
  | .string text => .ok (Path.parse text)
  | _ => .error .wrongType

/-- The integer that a value can be taken for; a float loses its fraction. -/
def toInteger (value : Toml.Value) : Except Failure Int :=
  match value with
  | .string text =>
      match Integer.parse? text with
      | some n => .ok n
      | none => .error .notInteger
  | .integer n => .ok n
  | .boolean b => .ok (if b then 1 else 0)
  | .float (.finite negative mantissa exponent) =>
      .ok (Double.truncate negative mantissa exponent)
  | .float (.infinite _) => .error .overflow
  | .float .nan => .error .notInteger
  | _ => .error .wrongType

def ofText (text : Text) : Toml.Value := .string text

/-! ## Loading -/

def ofMembers (environment : Environment) (members : Toml.Members) :
    Except Failure Settings := do
  let override := override environment
  let registry ← sectionOf members "registry"
  let versions ← toPath (override "GALLERY_VERSIONS_DIR"
    (valueOf registry "versions_dir" (ofText "versions".toList)))
  let notesSection ← sectionOf members "notes"
  let besideVersions := versions.join (Path.parse "notes.json".toList)
  let notes ← toPath (override "GALLERY_NOTES_FILE"
    (valueOf notesSection "notes_file" (ofText besideVersions.toText)))
  let server ← sectionOf members "server"
  let port ← toInteger
    (override "GALLERY_PORT" (valueOf server "port" (.integer 5174)))
  let ownPidFile :=
    (homeDirectory environment).join (Path.parse "gallery.pid".toList)
  let pidFile ← toPath (override "GALLERY_PID_FILE"
    (valueOf members "pid_file" (ofText ownPidFile.toText)))
  return {
    versions, notes, port, pidFile
    registryFile := override "GALLERY_REGISTRY_FILE"
      (valueOf registry "registry_file" (ofText "index.ts".toList))
    listName := valueOf registry "list_name" (ofText Registry.defaultListName)
    extensions := valueOf registry "companion_extensions"
      (.array (Companions.defaultExtensions.map ofText))
    host :=
      override "GALLERY_HOST" (valueOf server "host" (ofText "127.0.0.1".toList))
    routePrefix := valueOf server "api_prefix" (ofText "/api".toList)
    logLevel :=
      override "GALLERY_LOG_LEVEL"
      (valueOf members "log_level" (ofText "INFO".toList)) }

def load (tree : Tree) (environment : Environment) (asked? : Option Path) :
    Except Failure Settings := do
  match ← file? tree environment asked? with
  | some path => ofMembers environment (← readMembers tree path)
  | none => ofMembers environment []

/-! ## Use -/

def registry (settings : Settings) : Except Failure Path :=
  (toPath settings.registryFile).map settings.versions.join

/-- The companion files.  A text stands for the list of its characters, a table
for the list of its keys; only texts can be endings. -/
def companions (settings : Settings) : Except Failure Companions := do
  let extensions ← match settings.extensions with
    | .string text => pure (text.map ([·]))
    | .array elements => pure (elements.filterMap fun
        | .string text => some text
        | _ => none)
    | .table members => pure (members.map (·.1))
    | _ => .error .wrongType
  return ⟨settings.versions, extensions⟩

/-- The name of the list as it can stand in a registry: no list has a name that
is not a text. -/
def registryList (settings : Settings) : Text :=
  match settings.listName with
  | .string name => name
  | _ => []

def catalogue (settings : Settings) : Except Failure Catalogue := do
  return ⟨← settings.registry, settings.registryList, ← settings.companions⟩

def checkLogLevel (settings : Settings) : Except Failure Unit :=
  match settings.logLevel with
  | .string _ => .ok ()
  | _ => .error .noMember

end Settings

end Showcase

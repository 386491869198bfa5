import Showcase.Companion
import Showcase.Files.Atomic
import Showcase.Registry.Edit

/-!
# The catalogue of versions

A catalogue reads the registry file anew for every operation and replaces it as
a whole.  Arguments are checked before any file is touched.  A deletion writes
the registry first and then removes the companion file; what happens to the
companion never brings the record back.
-/

namespace Showcase

open Files

inductive Classification where
  | final
  | page
  | element
  deriving DecidableEq, Repr

namespace Classification

def name : Classification → Text
  | final => "final".toList
  | page => "page".toList
  | element => "element".toList

def parse (value : Json) : Except Failure Classification :=
  match [final, page, element].find? fun c => value.text? == some c.name with
  | some c => .ok c
  | none => .error (.refused .unknownType)

end Classification

structure Version where
  id : Text
  title? : Option Text
  type? : Option Text
  component? : Option Text
  source? : Option Text
  deriving DecidableEq, Repr

def Version.ofRecord? (doc : Registry.Document) (record : Registry.Record) :
    Option Version :=
  record.id?.map fun id =>
    ⟨id, record.value? "title".toList, record.value? "type".toList,
      record.value? "component".toList,
      (doc.companionImport? record).map (·.source)⟩

/-- The versions of a document: its records that have an id. -/
def versionsOf (doc : Registry.Document) : List Version :=
  doc.records.filterMap (Version.ofRecord? doc)

structure Deletion where
  id : List CodePoint
  registryUpdated : Bool
  fileRemoved : Bool
  deriving DecidableEq, Repr

def Deletion.isPartial (deletion : Deletion) : Bool :=
  deletion.registryUpdated && !deletion.fileRemoved

structure Catalogue where
  registry : Path
  listName : Text
  companions : Companions
  deriving DecidableEq, Repr

namespace Catalogue

/-- A catalogue can only be opened if the registry's real path is known. -/
def opened (catalogue : Catalogue) (tree : Tree) : Except Failure Catalogue := do
  let _ ← tree.realPath catalogue.registry
  return catalogue

def readRegistry (catalogue : Catalogue) (tree : Tree) : Except Failure Text := do
  if ← tree.doesExist catalogue.registry then tree.readText catalogue.registry
  else .error .storage

/-! ## Reading -/

def list (catalogue : Catalogue) (tree : Tree) : Except Failure (List Version) := do
  let text ← catalogue.readRegistry tree
  return versionsOf (← Registry.scanText text catalogue.listName)

def get (catalogue : Catalogue) (tree : Tree) (id : Json) :
    Except Failure Version := do
  let versions ← catalogue.list tree
  match versions.find? fun version => id.text? == some version.id with
  | some version => return version
  | none => .error .noVersion

/-! ## Changing a field -/

def setField (catalogue : Catalogue) (tree : Tree) (id : List CodePoint)
    (field : Text) (value : List CodePoint) : Outcome Unit :=
  let edit := do
    let text ← catalogue.readRegistry tree
    Registry.setField text catalogue.listName id field value
  match edit with
  | .error failure => (.error failure, tree)
  | .ok none => (.ok (), tree)
  | .ok (some points) => tree.writeAtomic catalogue.registry points

def reclassify (catalogue : Catalogue) (tree : Tree) (id type : Json) :
    Outcome Classification :=
  let arguments := do return (← checkId id, ← Classification.parse type)
  match arguments with
  | .error failure => (.error failure, tree)
  | .ok (id, target) =>
      let (answer, after) :=
        catalogue.setField tree id "type".toList (toPoints target.name)
      (answer.map fun _ => target, after)

def checkTitle (title : Json) : Except Failure (List CodePoint) :=
  match title with
  | .string points =>
      let stripped := trim CodePoint.isBlank points
      if stripped.isEmpty then .error (.refused .emptyTitle) else .ok stripped
  | _ => .error (.refused .emptyTitle)

def rename (catalogue : Catalogue) (tree : Tree) (id title : Json) :
    Outcome (List CodePoint) :=
  let arguments := do return (← checkId id, ← checkTitle title)
  match arguments with
  | .error failure => (.error failure, tree)
  | .ok (id, title) =>
      let (answer, after) := catalogue.setField tree id "title".toList title
      (answer.map fun _ => title, after)

/-! ## Deleting -/

/-- Removes the companion behind a statement that no record needs any more.  A
path that the companions refuse is left alone. -/
def removeCompanion (catalogue : Catalogue) (tree : Tree)
    (removal : Registry.Removal) :
    Outcome Bool :=
  if removal.shared then (.ok false, tree)
  else
    match catalogue.companions.remove tree removal.source with
    | (.error (.refused _), after) => (.ok false, after)
    | outcome => outcome

def delete (catalogue : Catalogue) (tree : Tree) (id : Json) : Outcome Deletion :=
  let edit := do
    let id ← checkId id
    let text ← catalogue.readRegistry tree
    return (id, ← Registry.remove text catalogue.listName id)
  match edit with
  | .error failure => (.error failure, tree)
  | .ok (id, removal) =>
      match tree.writeText catalogue.registry removal.text with
      | (.error failure, after) => (.error failure, after)
      | (.ok (), written) =>
          let (answer, after) := catalogue.removeCompanion written removal
          (answer.map (⟨id, true, ·⟩), after)

end Catalogue

end Showcase

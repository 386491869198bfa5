import Showcase.Catalogue
import Showcase.Notes

/-!
# The six calls of the service

`Api.answer` answers one call, whatever id it carries and whatever its body is
read as.  A failure that is the client's keeps its message; any other shows only
which operation failed.
-/

namespace Showcase.Http

open Files

structure Reply where
  status : Nat
  contentType : Text
  allow? : Option Text
  body : Text
  deriving DecidableEq, Repr

namespace Reply

def jsonType : Text := "application/json; charset=utf-8".toList

def ofJson (status : Nat) (json : Json) : Reply :=
  ⟨status, jsonType, none, json.compact⟩

def members (members : List (String × Json)) : Json :=
  .object (members.map fun (key, value) => (toPoints key.toList, value))

def success (fields : List (String × Json)) : Reply :=
  ofJson 200 (members (("success", .bool true) :: fields))

def error (status : Nat) (message : Text) : Reply :=
  ofJson status (members [("error", .text message)])

def ofFailure (fallback : Text) (failure : Failure) : Reply :=
  match failure.category? with
  | none => error 500 fallback
  | some category =>
      if 500 ≤ category.status then error category.status fallback
      else error category.status failure.message

def ofOutcome {α : Type} (fallback : Text) (outcome : Outcome α) (ok : α → Reply) :
    Outcome Reply :=
  match outcome with
  | (.ok value, tree) => (.ok (ok value), tree)
  | (.error failure, tree) => (.ok (ofFailure fallback failure), tree)

end Reply

/-- What the body of a request is read as.  Only a body that is no JSON is
answered; any other failure to read it ends the call. -/
inductive Body where
  | json (value : Json)
  | notJson
  | failed (failure : Failure)

inductive Call where
  | getNotes
  | postNotes (body : Body)
  | getVersions
  | postType (id : List CodePoint) (body : Body)
  | postTitle (id : List CodePoint) (body : Body)
  | deleteVersion (id : List CodePoint)

structure Api where
  catalogue : Catalogue
  notes : Path
  deriving DecidableEq, Repr

namespace Api

def versionJson (version : Version) : Json :=
  let optional := fun (text? : Option Text) => (text?.map Json.text).getD .null
  Reply.members [("id", .text version.id), ("title", optional version.title?),
    ("type", optional version.type?), ("component", optional version.component?),
    ("source", optional version.source?)]

def getNotes (api : Api) (tree : Tree) : Outcome Reply :=
  Reply.ofOutcome "Failed to read notes".toList (Notes.read tree api.notes, tree)
    (Reply.ofJson 200)

def postNotes (api : Api) (tree : Tree) (payload : Json) : Outcome Reply :=
  Reply.ofOutcome "Failed to write notes".toList
  (Notes.replace tree api.notes payload)
    fun _ => Reply.success []

def getVersions (api : Api) (tree : Tree) : Outcome Reply :=
  Reply.ofOutcome "Failed to read versions".toList (api.catalogue.list tree, tree)
    fun versions =>
      Reply.ofJson 200
        (Reply.members [("versions", .array (versions.map versionJson))])

def postType (api : Api) (tree : Tree) (id : List CodePoint) (payload : Json) :
    Outcome Reply :=
  Reply.ofOutcome "Failed to update version type".toList
    (api.catalogue.reclassify tree (.string id)
      ((payload.member? "type".toList).getD .null))
    fun type => Reply.success [("id", .string id), ("type", .text type.name)]

def postTitle (api : Api) (tree : Tree) (id : List CodePoint) (payload : Json) :
    Outcome Reply :=
  Reply.ofOutcome "Failed to update version title".toList
    (api.catalogue.rename tree (.string id)
      ((payload.member? "title".toList).getD .null))
    fun title => Reply.success [("id", .string id), ("title", .string title)]

def deleteVersion (api : Api) (tree : Tree) (id : List CodePoint) : Outcome Reply :=
  Reply.ofOutcome "Failed to delete version".toList
  (api.catalogue.delete tree (.string id))
    fun deletion =>
      Reply.success [("id", .string id),
        ("fileRemoved", .bool deletion.fileRemoved)]

def withObject (tree : Tree) (body : Body) (answer : Json → Outcome Reply) :
    Outcome Reply :=
  match body with
  | .json (.object members) => answer (.object members)
  | .json _ => (.ok (.error 400 "Body must be a JSON object".toList), tree)
  | .notJson => (.ok (.error 400 "Expected JSON body".toList), tree)
  | .failed failure => (.error failure, tree)

def answer (api : Api) (tree : Tree) : Call → Outcome Reply
  | .getNotes => api.getNotes tree
  | .postNotes body => withObject tree body (api.postNotes tree)
  | .getVersions => api.getVersions tree
  | .postType id body => withObject tree body (api.postType tree id)
  | .postTitle id body => withObject tree body (api.postTitle tree id)
  | .deleteVersion id => api.deleteVersion tree id

end Api

end Showcase.Http

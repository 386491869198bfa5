import Showcase.Http.Api
import Showcase.Http.Route

/-!
# The HTTP service

The outermost layer of the program: it takes a request from the wire, finds the
call that it makes, and sends the reply.
-/

namespace Showcase.Http

open Files

structure Request where
  method : Text
  target : Text
  body : ByteArray

namespace Reply

def plain (status : Nat) (text : Text) : Reply :=
  ⟨status, "text/plain; charset=utf-8".toList, none, text⟩

def notFound : Reply := plain 404 "404: Not Found".toList

def notAllowed (methods : List Text) : Reply :=
  { plain 405 "405: Method Not Allowed".toList with
    allow? := some (List.intercalate [','] methods) }

def broken : Reply :=
  plain 500 "500 Internal Server Error\n\nServer got itself in trouble".toList

end Reply

structure Service where
  api : Api
  routes : Routes
  deriving DecidableEq, Repr

namespace Service

def create (tree : Tree) (catalogue : Catalogue) (notes : Path)
    (pathPrefix : Text) :
    Except Failure Service := do
  let catalogue ← catalogue.opened tree
  return ⟨⟨catalogue, notes⟩, ← Routes.below pathPrefix⟩

def readBody (bytes : ByteArray) : Body :=
  match (Utf8.decode? bytes).map fun text => Json.read text with
  | some (.ok value) => .json value
  | some (.error .tooDeep) => .failed .recursion
  | _ => .notJson

def callOf (endpoint : Endpoint) (method id : Text) (body : ByteArray) : Call :=
  match endpoint with
  | .notes => if method = "POST".toList then .postNotes (readBody body)
      else .getNotes
  | .versions => .getVersions
  | .versionType => .postType (toPoints id) (readBody body)
  | .versionTitle => .postTitle (toPoints id) (readBody body)
  | .version => .deleteVersion (toPoints id)

def answer (service : Service) (tree : Tree) (request : Request) : Reply × Tree :=
  match service.routes.find request.method request.target with
  | .nowhere => (.notFound, tree)
  | .otherMethods methods => (.notAllowed methods, tree)
  | .endpoint endpoint id =>
      match service.api.answer tree
        (callOf endpoint request.method id request.body) with
      | (.ok reply, after) => (reply, after)
      | (.error _, after) => (.broken, after)

/-- Answers a request.  `HEAD` is answered like `GET`, without the body. -/
def respond (service : Service) (tree : Tree) (request : Request) : Reply × Tree :=
  let (reply, after) := service.answer tree request
  if request.method = "HEAD".toList then ({ reply with body := [] }, after)
  else (reply, after)

end Service

end Showcase.Http

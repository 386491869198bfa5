import Showcase.Failure
import Showcase.Http.Percent

/-!
# Routes

The routes lie below a prefix, in which `{name}` stands for any one segment.
A path that some route matches allows the methods of that route only.
-/

namespace Showcase.Http

/-- A part of a path pattern: fixed characters, or a variable for one or more
characters other than slashes and braces. -/
inductive Piece where
  | literal (text : Text)
  | variable (name : Text)
  deriving DecidableEq, Repr

def isVariableChar (c : Char) : Bool := c != '/' && c != '\x7b' && c != '\x7d'

/-- Matches a whole path against pieces and gives what the variables stand for.
An earlier variable takes as much as it can. -/
def matchPieces : List Piece → Text → Option (List Text)
  | [], [] => some []
  | [], _ :: _ => none
  | .literal text :: pieces, path =>
      if text.isPrefixOf path then matchPieces pieces (path.drop text.length) else
        none
  | .variable _ :: pieces, path =>
      let longest := (path.takeWhile isVariableChar).length
      (List.range longest).reverse.findSome? fun n =>
        (matchPieces pieces (path.drop (n + 1))).map (path.take (n + 1) :: ·)

def isVariableName : Text → Bool
  | [] => false
  | c :: rest => (c.isAlpha || c == '_') && rest.all fun c =>
      c.isAlphanum || c == '_'

def addChar (c : Char) : List Piece → List Piece
  | .literal text :: pieces => .literal (c :: text) :: pieces
  | pieces => .literal [c] :: pieces

def pieces? : Text → Option (List Piece)
  | [] => some []
  | c :: rest =>
      if c = '\x7b' then
        let name := rest.takeWhile (· ≠ '\x7d')
        if isVariableName name && name.length < rest.length then
          (pieces? (rest.drop (name.length + 1))).map (.variable name :: ·)
        else none
      else if c = '\x7d' then none
      else (pieces? rest).map (addChar c)
termination_by pattern => pattern.length

def variableNames (pieces : List Piece) : List Text :=
  pieces.filterMap fun
    | .variable name => some name
    | .literal _ => none

inductive Endpoint where
  | notes
  | versions
  | versionType
  | versionTitle
  | version
  deriving DecidableEq, Repr

namespace Endpoint

def all : List Endpoint := [notes, versions, versionType, versionTitle, version]

def suffix : Endpoint → Text
  | notes => "/notes".toList
  | versions => "/versions".toList
  | versionType => "/versions/\x7bid\x7d/type".toList
  | versionTitle => "/versions/\x7bid\x7d/title".toList
  | version => "/versions/\x7bid\x7d".toList

def methods : Endpoint → List Text
  | notes => ["GET".toList, "HEAD".toList, "POST".toList]
  | versions => ["GET".toList, "HEAD".toList]
  | versionType | versionTitle => ["POST".toList]
  | version => ["DELETE".toList]

end Endpoint

/-- A path pattern: a fixed path, compared with the decoded one, or pieces,
whose fixed characters are compared as they are spelled in a path. -/
inductive Pattern where
  | fixed (path : Text)
  | pieces (parts : List Piece)
  deriving DecidableEq, Repr

namespace Pattern

def ofText? (text : Text) : Option Pattern :=
  if text.head? != some '/' then none
  else if !text.contains '\x7b' && !text.contains '\x7d' then some (.fixed text)
  else
    match pieces? text with
    | none => none
    | some parts =>
        if (variableNames parts).Nodup then
          some (.pieces (parts.map fun
            | .literal text => .literal (encodePath text)
            | piece => piece))
        else none

def match? (pattern : Pattern) (path : Text) : Option (List Text) :=
  match pattern with
  | fixed text => if text = path then some [] else none
  | pieces parts => matchPieces parts path

end Pattern

structure Routes where
  patterns : List (Endpoint × Pattern)
  deriving DecidableEq, Repr

/-- Where a request leads: to an endpoint with the last variable of its path,
to a path that allows other methods only, or nowhere. -/
inductive Destination where
  | endpoint (endpoint : Endpoint) (id : Text)
  | otherMethods (allowed : List Text)
  | nowhere
  deriving DecidableEq, Repr

namespace Routes

def below (pathPrefix : Text) : Except Failure Routes :=
  let base := (pathPrefix.reverse.dropWhile (· == '/')).reverse
  let patterns := Endpoint.all.mapM fun endpoint =>
    (Pattern.ofText? (base ++ endpoint.suffix)).map (endpoint, ·)
  match patterns with
  | some patterns => .ok ⟨patterns⟩
  | none => .error .invalidRoute

def behindHost? (target : Text) : Option Text :=
  let scheme := target.takeWhile Char.isAlpha
  let rest := target.drop scheme.length
  if !scheme.isEmpty && "://".toList.isPrefixOf rest then
    some ((rest.drop 3).dropWhile fun c => c != '/' && c != '?' && c != '#')
  else none

/-- The path of a request's target.  Without scheme and host it ends at the
first question mark or, if there is none, at the first hash sign. -/
def targetPath (target : Text) : Text :=
  match behindHost? target with
  | some rest => rest.takeWhile fun c => c != '?' && c != '#'
  | none =>
      if target.contains '?' then target.takeWhile (· ≠ '?') else
        target.takeWhile (· ≠ '#')

def find (routes : Routes) (method target : Text) : Destination :=
  let path := decodePath (targetPath target)
  let matching := routes.patterns.filterMap fun (endpoint, pattern) =>
    (pattern.match? path).map (endpoint, ·)
  match matching.find? fun (endpoint, _) => endpoint.methods.contains method with
  | some (endpoint, matched) =>
      .endpoint endpoint (restore (matched.getLast?.getD []))
  | none =>
      if matching.isEmpty then .nowhere
      else
        .otherMethods
          ((matching.flatMap (·.1.methods)).eraseDups.mergeSort precedes)

end Routes

end Showcase.Http

import Showcase.Registry.Fault
import Showcase.Registry.Span

/-!
# Failures

An operation fails for one of the causes below.  Some of them are answers to
the client: these have a `Category`, which fixes the status of the reply, and a
message that is safe to show.  The others come from below the service, such as
a path that the file system refuses.
-/

namespace Showcase

inductive Category where
  | general
  | invalidArgument
  | notFound
  | duplicateRecord
  | storage
  deriving DecidableEq, Repr

namespace Category

def status : Category → Nat
  | general => 500
  | invalidArgument => 400
  | notFound => 404
  | duplicateRecord => 409
  | storage => 500

def summary : Category → Text
  | general => "Request failed".toList
  | invalidArgument => "Invalid argument".toList
  | notFound => "Version not found".toList
  | duplicateRecord => "Version id is ambiguous".toList
  | storage => "Storage error".toList

/-- The message shown for a failure of this class: the given one, or the
class's summary if there is none. -/
def message (category : Category) (given? : Option Text) : Text :=
  match given? with
  | some (c :: cs) => c :: cs
  | _ => category.summary

end Category

inductive Refusal where
  | missingId
  | unsafeId
  | unknownType
  | emptyTitle
  | importNotRelative
  | importOutside
  | notesNotObject
  | noteNotObject
  deriving DecidableEq, Repr

def Refusal.message : Refusal → Text
  | missingId => "Missing version id".toList
  | unsafeId => "Invalid version id".toList
  | unknownType => "Invalid version type".toList
  | emptyTitle => "Title must not be empty".toList
  | importNotRelative => "Companion import must be relative".toList
  | importOutside => "Companion import escapes the versions directory".toList
  | notesNotObject => "Notes must be a JSON object".toList
  | noteNotObject => "Each note must be an object keyed by version id".toList

inductive SystemError where
  | noEntry
  | notDirectory
  | isDirectory
  | exists
  | busy
  | tooManyLinks
  | nameTooLong
  | accessDenied
  deriving DecidableEq, Repr

inductive Failure where
  /-- An argument is refused. -/
  | refused (why : Refusal)
  /-- No record has the id, or the record lacks the field to be changed. -/
  | noVersion
  | noField (name : Text)
  /-- The record's component is bound by no import. -/
  | noImport
  | ambiguousId
  | registry (fault : Registry.Fault)
  /-- A document cannot be read or written, or an edit fails its validation. -/
  | storage
  | outOfText (range : OutOfText)
  /-- A position beyond the end of a text. -/
  | outOfRange
  | emptyLiteral
  | system (error : SystemError)
  | embeddedNul
  /-- A file name that would not be one component. -/
  | invalidName
  | linkLoop
  /-- A lone surrogate in a text to be written. -/
  | unencodable
  /-- Bytes that are not UTF-8. -/
  | undecodable
  /-- An integer with too many digits. -/
  | longInteger
  /-- Calls that nest deeper than the stack allows. -/
  | recursion
  | malformedSettings
  /-- A setting whose value has a type that cannot be used. -/
  | wrongType
  /-- A setting that should have entries or letter case, and has none. -/
  | noMember
  | notInteger
  | overflow
  | invalidRoute
  deriving DecidableEq, Repr

namespace Failure

def category? : Failure → Option Category
  | refused _ => some .invalidArgument
  | noVersion | noField _ | noImport => some .notFound
  | ambiguousId => some .duplicateRecord
  | registry _ | storage => some .storage
  | _ => none

def given? : Failure → Option Text
  | refused why => some why.message
  | noField name => some ("Field '".toList ++ name ++ "' not found".toList)
  | noImport => some "Import not found for version".toList
  | registry fault => some fault.message
  | outOfText range => some range.message.toList
  | _ => none

def message (failure : Failure) : Text :=
  (failure.category?.getD .general).message failure.given?

end Failure

end Showcase

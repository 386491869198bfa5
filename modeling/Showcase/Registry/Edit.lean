import Showcase.Failure
import Showcase.Registry.Document
import Showcase.Registry.Line

/-!
# Edits

An edit computes a new registry text from the old one and touches no file.
Each result is scanned again before it is offered, so that a text that no
longer describes the records it should is never written.
-/

namespace Showcase.Registry

def LookupError.failure : LookupError → Failure
  | absent => .noVersion
  | ambiguous => .ambiguousId

def scanText (text listName : Text) : Except Failure Document :=
  (scan text listName).mapError .registry

def Document.record (doc : Document) (id : Text) : Except Failure Record :=
  (doc.find id).mapError LookupError.failure

/-- The record with an id that a client sent.  No record's id holds a
surrogate. -/
def Document.recordOf (doc : Document) (id : List CodePoint) :
    Except Failure Record :=
  match scalars? id with
  | some id => doc.record id
  | none => .error .noVersion

def locate (text listName id field : Text) : Except Failure Span := do
  let doc ← scanText text listName
  let record ← doc.record id
  match record.field? field with
  | none => .error (.noField field)
  | some f => return f.span

def literalValue : Text → Except Failure Text
  | [] => .error .emptyLiteral
  | first :: rest => (decode first rest).mapError .registry

/-! ## Changing a field -/

def FieldValue.holds (fieldValue : FieldValue) (value : List CodePoint) : Bool :=
  match fieldValue with
  | string old _ => toPoints old == value
  | _ => false

def FieldValue.quoteText : FieldValue → Text
  | string _ quote => [quote]
  | _ => ['"']

/-- The text with a string in place of a field's value.  The text is scanned
again: it has to hold as many records as before, and the field the value. -/
def writeField (doc : Document) (listName id field : Text) (value : List CodePoint)
    (current : Field) : Except Failure (List CodePoint) := do
  let literal := quotePoints value current.value.quoteText
  let new ← (current.span.splice (toPoints doc.text) literal).mapError .outOfText
  let check ← (scanPoints new listName).mapError .registry
  if check.records.length ≠ doc.records.length then .error .storage
  let record ← check.record id
  if (record.value? field).map toPoints = some value then return new else
    .error .storage

/-- The text in which the record's field holds the string `value`, or `none`
if it does so already. -/
def setField (text listName : Text) (id : List CodePoint) (field : Text)
    (value : List CodePoint) : Except Failure (Option (List CodePoint)) := do
  let doc ← scanText text listName
  let record ← doc.recordOf id
  match record.field? field, record.id? with
  | some current, some id =>
      if current.value.holds value then return none
      else (writeField doc listName id field value current).map some
  | _, _ => .error .noVersion

/-! ## Removing a record -/

def recordCut (doc : Document) (record : Record) : Except Failure (Span × Text) :=
  if doc.elementCount = 1 then .ok (doc.listSpan, "[]".toList)
  else
    match record.comma?, record.previousComma? with
    | some comma, _ =>
        (wholeLines doc.text ⟨record.span.start, comma.stop⟩).map (·, [])
    | none, some comma => .ok (⟨comma.start, record.span.stop⟩, [])
    | none, none => .error .storage

def isShared (doc : Document) (record : Record) : Bool :=
  doc.records.any fun other =>
    other.span != record.span
      && other.value? "component".toList == record.value? "component".toList

/-- The text without the record and, unless another record needs it, without
its import.  The later of the two regions is cut first, so that the earlier
one keeps its position. -/
def cutText (doc : Document) (record : Record) (statement : Import)
    (shared : Bool) :
    Except Failure Text := do
  let (span, filler) ← recordCut doc record
  let cutRecord := fun text => (span.splice text filler).mapError Failure.outOfText
  if shared then cutRecord doc.text
  else
    let lines ← wholeLines doc.text statement.span
    let cutImport := fun text => (lines.splice text []).mapError Failure.outOfText
    if span.start < lines.start then cutImport doc.text >>= cutRecord
    else cutRecord doc.text >>= cutImport

def isRemoval (before after : Document) (id source : Text) (shared : Bool) : Bool :=
  after.records.length + 1 == before.records.length
    && after.records.all (·.id? != some id)
    && after.imports.length + (if shared then 0 else 1) == before.imports.length
    && (shared || after.imports.all (·.source != source))
    && (after.elementCount == 0 || after.trailingComma == before.trailingComma)

structure Removal where
  text : Text
  source : Text
  shared : Bool
  deriving DecidableEq, Repr

def remove (text listName : Text) (id : List CodePoint) :
    Except Failure Removal := do
  let doc ← scanText text listName
  let record ← doc.recordOf id
  match doc.companionImport? record, record.id? with
  | some statement, some id =>
      let shared := isShared doc record
      let new ← cutText doc record statement shared
      let after ← scanText new listName
      if isRemoval doc after id statement.source shared then
        return ⟨new, statement.source, shared⟩
      else .error .storage
  | _, _ => .error .noImport

end Showcase.Registry

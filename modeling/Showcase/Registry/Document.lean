import Showcase.Registry.Import
import Showcase.Registry.Record

/-!
# Registry documents

`scan` reads a registry text: its imports and the records of its list, each
with the span it has in the text.
-/

namespace Showcase.Registry

structure Document where
  text : Text
  listSpan : Span
  imports : List Import
  records : List Record
  elementCount : Nat
  trailingComma : Bool
  deriving DecidableEq, Repr

def defaultListName : Text := "versions".toList

def scanWith (read : LiteralReader) (text listName : Text) :
    Except Fault Document := do
  let tokens ← tokenize text
  let b ← Bracketed.ofTokens tokens
  let opener ← b.findList listName
  let close := (b.partner? opener).getD opener
  let elements ← b.elementsFrom none (opener + 1) close read
  let imports ← b.imports read
  let start := ((b.token? opener).map Token.start).getD 0
  let stop := ((b.token? close).map Token.stop).getD 0
  return ⟨text, ⟨start, stop⟩, imports, elements.records, elements.count,
    elements.trailingComma⟩

def scan (text listName : Text) : Except Fault Document :=
  scanWith Token.value text listName

/-- Reads a text in which surrogates may stand.  Outside literals none of them
is more than some punctuation character. -/
def scanPoints (points : List CodePoint) (listName : Text) :
    Except Fault Document :=
  scanWith (readAt points) (points.map CodePoint.seen) listName

inductive LookupError where
  | absent
  | ambiguous
  deriving DecidableEq, Repr

namespace Document

def find (doc : Document) (id : Text) : Except LookupError Record :=
  match doc.records.filter (·.id? == some id) with
  | [] => .error .absent
  | [record] => .ok record
  | _ => .error .ambiguous

def importFor? (doc : Document) (binding : Text) : Option Import :=
  doc.imports.find? (·.names.contains binding)

/-- The import of a record's component.  An empty component has none. -/
def companionImport? (doc : Document) (record : Record) : Option Import :=
  match record.value? "component".toList with
  | none => none
  | some binding => if binding.isEmpty then none else doc.importFor? binding

end Document

end Showcase.Registry

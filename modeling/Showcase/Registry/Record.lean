import Showcase.Registry.Bracket
import Showcase.Registry.Literal

/-!
# Records

The registry list is the array literal that initialises the variable of the
list's name.  Its elements that are one brace group are records, made of
`key: value` fields and of shorthand fields.
-/

namespace Showcase.Registry

inductive FieldValue where
  | string (value : Text) (quote : Char)
  | name (value : Text)
  | expr
  deriving DecidableEq, Repr

def FieldValue.text? : FieldValue → Option Text
  | string value _ => some value
  | name value => some value
  | expr => none

structure Field where
  name : Text
  value : FieldValue
  span : Span
  deriving DecidableEq, Repr

/-- A brace group of the list, with the commas at its two ends. -/
structure Record where
  span : Span
  fields : List Field
  comma? : Option Span
  previousComma? : Option Span
  deriving DecidableEq, Repr

namespace Record

def field? (record : Record) (name : Text) : Option Field :=
  record.fields.find? (·.name == name)

def value? (record : Record) (name : Text) : Option Text :=
  (record.field? name).bind (·.value.text?)

def id? (record : Record) : Option Text :=
  match record.field? "id".toList with
  | some ⟨_, .string value _, _⟩ => some value
  | _ => none

end Record

namespace Bracketed

/-! ## The list -/

/-- The index of the `=` that assigns to the variable declared before `i`, or
of the `;` that ends its declaration.  An arrow `=>` belongs to the type. -/
def assignment (b : Bracketed) (i : Nat) : Nat :=
  let found := b.skipTo ['=', ';'] i b.size
  if b.hasText found ['='] ∧ b.hasText (found + 1) ['>'] then
    b.assignment (found + 2)
  else found
termination_by b.size - i
decreasing_by
  have inside := b.lt_size_of_hasText (by assumption : _ ∧ _).1
  have := b.le_skipTo_of_lt inside
  omega

def declares (b : Bracketed) (listName : Text) (i : Nat) : Bool :=
  match b.token? i with
  | some token =>
      token.kind == .name && token.text == listName && i != 0
        && (b.hasText (i - 1) "const".toList || b.hasText (i - 1) "let".toList
          || b.hasText (i - 1) "var".toList)
  | none => false

def listAt? (b : Bracketed) (listName : Text) (i : Nat) : Option Nat :=
  if b.declares listName i then
    let equals := b.assignment (i + 1)
    if b.hasText equals ['='] && b.hasText (equals + 1) ['['] then
      some (equals + 1) else none
  else none

def findList (b : Bracketed) (listName : Text) : Except Fault Nat :=
  match (List.range b.size).findSome? (b.listAt? listName) with
  | some i => .ok i
  | none => .error (.listNotFound listName)

/-! ## Fields -/

def keyName (key : Token) (read : LiteralReader := Token.value) :
    Except Fault Text :=
  if key.kind = .string then read key else .ok key.text

def valueAt (b : Bracketed) (name : Text) (first stop : Nat)
    (read : LiteralReader := Token.value) : Except Fault (Option Field) :=
  match b.token? first, b.token? (stop - 1) with
  | some head, some last =>
      let span : Span := ⟨head.start, last.stop⟩
      if first + 1 = stop ∧ head.kind = .string then do
        let value ← read head
        return some ⟨name, .string value head.first, span⟩
      else if first + 1 = stop ∧ head.kind = .name then
        return some ⟨name, .name head.text, span⟩
      else
        return some ⟨name, .expr, span⟩
  | _, _ => return none

/-- The field made of the tokens from `i` up to `stop`, where its comma or the
record's end stands.  Spreads, methods and other shapes are no fields. -/
def fieldAt (b : Bracketed) (i stop : Nat) (read : LiteralReader := Token.value) :
    Except Fault (Option Field) :=
  match b.token? i with
  | none => return none
  | some key =>
      if key.kind = .punct ∨ stop ≤ i then return none
      else do
        let name ← keyName key read
        if i + 1 = stop ∧ key.kind = .name then
          return some ⟨name, .name key.text, key.span⟩
        else if i + 2 < stop ∧ b.hasText (i + 1) [':'] = true then
          b.valueAt name (i + 2) stop read
        else
          return none

/-- The fields from index `i` up to the closing brace; of several with one
name the first counts, so a name already `seen` is passed over. -/
def fieldsFrom (b : Bracketed) (seen : List Text) (i close : Nat)
    (read : LiteralReader := Token.value) : Except Fault (List Field) :=
  if i < close then do
    let stop := b.skipTo [','] i close
    let field? ← b.fieldAt i stop read
    match field? with
    | some field =>
        if seen.contains field.name then
          b.fieldsFrom seen (max i stop + 1) close read
        else do
          let later ← b.fieldsFrom (field.name :: seen) (max i stop + 1) close read
          return field :: later
    | none => b.fieldsFrom seen (max i stop + 1) close read
  else return []
termination_by close - i

/-! ## Elements -/

/-- The elements of a list: the records among them, the number of all, and
whether a comma stands behind the last. -/
structure Elements where
  records : List Record
  count : Nat
  trailingComma : Bool
  deriving DecidableEq, Repr

def recordAt (b : Bracketed) (i stop : Nat) (comma? previousComma? : Option Span)
    (read : LiteralReader := Token.value) : Except Fault (Option Record) :=
  match b.token? i, b.token? (stop - 1) with
  | some head, some last =>
      if head.text = ['{'] ∧ b.partner? i = some (stop - 1) then do
        let fields ← b.fieldsFrom [] (i + 1) (stop - 1) read
        return some ⟨⟨head.start, last.stop⟩, fields, comma?, previousComma?⟩
      else return none
  | _, _ => return none

def elementsFrom (b : Bracketed) (previousComma? : Option Span) (i close : Nat)
    (read : LiteralReader := Token.value) : Except Fault Elements :=
  if i < close then
    let stop := b.skipTo [','] i close
    if stop = i then .error .emptyElement
    else do
      let comma? := if stop < close then (b.token? stop).map Token.span else none
      let record? ← b.recordAt i stop comma? previousComma? read
      let later ← b.elementsFrom comma? (max i stop + 1) close read
      let trailing := if stop + 1 < close then later.trailingComma
        else comma?.isSome
      return ⟨record?.toList ++ later.records, later.count + 1, trailing⟩
  else return ⟨[], 0, false⟩
termination_by close - i

end Bracketed

end Showcase.Registry

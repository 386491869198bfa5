import Showcase.Toml.Reader

/-!
# TOML documents

A document is read line by line into a `Draft`.  Beside the tables read so far
a draft knows the keys that later lines may not use: a `declared` table is not
opened by another header, and nothing is added below a `complete` value.
-/

namespace Showcase.Toml

structure Draft where
  root : Members
  /-- The key of the last header. -/
  header : Key
  declared : List Key
  /-- Keys that are declared from the next header on. -/
  pending : List Key
  complete : List Key

namespace Draft

def empty : Draft := ⟨[], [], [], [], []⟩

def isDeclared (draft : Draft) (key : Key) : Bool := draft.declared.contains key

def isComplete (draft : Draft) (key : Key) : Bool :=
  draft.complete.any (·.isPrefixOf key)

/-- What a header does first: the tables that dotted keys have created since
the last one become declared. -/
def settle (draft : Draft) : Draft :=
  ⟨draft.root, draft.header, draft.pending ++ draft.declared, [], draft.complete⟩

def openTable (draft : Draft) (key : Key) : Except Fault Draft := do
  if draft.isDeclared key || draft.isComplete key then .error .malformed
  let root ← required (changeAt true some key draft.root)
  return ⟨root, key, key :: draft.declared, draft.pending, draft.complete⟩

/-- Adds a table to an array of tables.  Below it all keys are free again. -/
def openElement (draft : Draft) (key : Key) : Except Fault Draft := do
  if draft.isComplete key then .error .malformed
  let root ← required (appendAt key draft.root)
  let free := fun keys : List Key => keys.filter fun k => !key.isPrefixOf k
  return ⟨root, key, key :: free draft.declared, draft.pending, free draft.complete⟩

/-- Adds a value to the table of the last header.  The tables that a dotted key
passes through must not have a header of their own. -/
def assign (draft : Draft) (key : Key) (value : Value) : Except Fault Draft := do
  let path := draft.header ++ key
  let passed := (List.range (key.length - 1)).map fun n =>
    draft.header ++ key.take (n + 1)
  if passed.any draft.isDeclared || draft.isComplete path.dropLast then
    .error .malformed
  let root ← required (insertAt true path value draft.root)
  let complete := if value.isNested then path :: draft.complete else draft.complete
  return ⟨root, draft.header, draft.declared, passed ++ draft.pending, complete⟩

end Draft

def readHeader (close text : Text) : Option (Key × Text) :=
  match readKey (skipSpace text) with
  | none => none
  | some (key, after) =>
      if close.isPrefixOf after then some (key, after.drop close.length) else none

def readStatement (draft : Draft) (text : Text) : Except Fault (Draft × Text) :=
  match text with
  | [] | '\n' :: _ | '#' :: _ => .ok (draft, text)
  | '[' :: '[' :: rest => do
      let (key, after) ← required (readHeader [']', ']'] rest)
      return (← draft.settle.openElement key, after)
  | '[' :: rest => do
      let (key, after) ← required (readHeader [']'] rest)
      return (← draft.settle.openTable key, after)
  | _ => do
      let (key, rest) ← required (readAssigned text)
      let (value, after) ← readValue (2 * rest.length + 2) rest
      return (← draft.assign key value, after)

def readLines : Nat → Draft → Text → Except Fault Members
  | 0, _, _ => .error .malformed
  | fuel + 1, draft, text => do
      let (draft, after) ← readStatement draft (skipSpace text)
      match ← required (skipComment (skipSpace after)) with
      | [] => return draft.root
      | '\n' :: rest => readLines fuel draft rest
      | _ => .error .malformed

def read (text : Text) : Except Fault Members :=
  readLines (text.length + 1) .empty text

end Showcase.Toml

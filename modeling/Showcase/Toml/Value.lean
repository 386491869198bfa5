import Showcase.Number.Double
import Showcase.Text.CodePoint

/-!
# TOML values

A table keeps its members in the order in which they were written.  `changeAt`
reaches the table behind a dotted key and creates the tables on the way.
-/

namespace Showcase.Toml

abbrev Key := List Text

structure Date where
  year : Nat
  month : Nat
  day : Nat
  deriving DecidableEq, Repr

structure Time where
  hour : Nat
  minute : Nat
  second : Nat
  micro : Nat
  deriving DecidableEq, Repr

/-- A value.  The offset of a date with a time is in minutes east of UTC. -/
inductive Value where
  | string (text : Text)
  | integer (value : Int)
  | float (value : Double)
  | boolean (value : Bool)
  | dateTime (date : Date) (time : Time) (offset? : Option Int)
  | date (value : Date)
  | time (value : Time)
  | array (elements : List Value)
  | table (members : List (Text × Value))
  deriving BEq, Repr

abbrev Members := List (Text × Value)

inductive Fault where
  | malformed
  /-- An integer with too many digits. -/
  | longInteger
  deriving DecidableEq, Repr

def required {α : Type} (read? : Option α) : Except Fault α :=
  match read? with
  | some value => .ok value
  | none => .error .malformed

def Value.isNested : Value → Bool
  | .array _ | .table _ => true
  | _ => false

def isLeapYear (year : Nat) : Bool :=
  year % 4 == 0 && (year % 100 != 0 || year % 400 == 0)

def daysInMonth (year month : Nat) : Nat :=
  if month = 2 then if isLeapYear year then 29 else 28
  else if month = 4 ∨ month = 6 ∨ month = 9 ∨ month = 11 then 30
  else 31

/-- Whether a date is a day of the calendar.  There is no year zero. -/
def Date.isReal (date : Date) : Bool :=
  1 ≤ date.year && 1 ≤ date.month && date.month ≤ 12 && 1 ≤ date.day
    && date.day ≤ daysInMonth date.year date.month

/-! ## Tables -/

def replaceMember (members : Members) (name : Text) (value : Value) : Members :=
  members.map fun m => if m.1 = name then (name, value) else m

/-- Changes the table behind a key.  If `throughArrays` holds, an array on the
way leads on to its last element. -/
def changeAt (throughArrays : Bool) (change : Members → Option Members) :
    Key → Members → Option Members
  | [], members => change members
  | name :: names, members =>
      match members.lookup name with
      | none =>
          (changeAt throughArrays change names []).map fun inner =>
            members ++ [(name, .table inner)]
      | some (.table inner) =>
          (changeAt throughArrays change names inner).map fun inner =>
            replaceMember members name (.table inner)
      | some (.array elements) =>
          match throughArrays, elements.getLast? with
          | true, some (.table inner) =>
              (changeAt throughArrays change names inner).map fun inner =>
                replaceMember members name
                  (.array (elements.dropLast ++ [.table inner]))
          | _, _ => none
      | some _ => none

def insertAt (throughArrays : Bool) (key : Key) (value : Value)
    (members : Members) :
    Option Members :=
  match key.getLast? with
  | none => none
  | some name =>
      changeAt throughArrays
        (fun inner => if (inner.lookup name).isSome then none else
          some (inner ++ [(name, value)]))
        key.dropLast members

def appendAt (key : Key) (members : Members) : Option Members :=
  match key.getLast? with
  | none => none
  | some name =>
      changeAt true
        (fun inner =>
          match inner.lookup name with
          | none => some (inner ++ [(name, .array [.table []])])
          | some (.array elements) =>
              some (replaceMember inner name (.array (elements ++ [.table []])))
          | some _ => none)
        key.dropLast members

end Showcase.Toml

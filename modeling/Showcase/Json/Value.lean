import Showcase.Number.Double
import Showcase.Text.CodePoint

/-!
# JSON values

Integers have no bound, other numbers are doubles, strings can hold lone
surrogates, and an object keeps its members in the order of their keys' first
appearance.
-/

namespace Showcase

inductive Json where
  | null
  | bool (value : Bool)
  | int (value : Int)
  | double (value : Double)
  | string (points : List CodePoint)
  | array (elements : List Json)
  | object (members : List (List CodePoint × Json))
  deriving BEq, Repr

namespace Json

abbrev Key := List CodePoint

def text (value : Text) : Json := .string (toPoints value)

def ofString (value : String) : Json := text value.toList

def nat (n : Nat) : Json := .int n

/-- Sets a member: a key that is there already keeps its place. -/
def setMember (members : List (Key × Json)) (key : Key) (value : Json) :
    List (Key × Json) :=
  if members.any (·.1 == key) then
    members.map fun m => if m.1 == key then (key, value) else m
  else members ++ [(key, value)]

def collect (pairs : List (Key × Json)) : List (Key × Json) :=
  pairs.foldl (fun members m => setMember members m.1 m.2) []

def member? (json : Json) (key : Text) : Option Json :=
  match json with
  | object members => members.lookup (toPoints key)
  | _ => none

mutual

/-- How many arrays and objects there are at most one inside the other. -/
def depth : Json → Nat
  | array elements => elementsDepth elements + 1
  | object members => membersDepth members + 1
  | _ => 0

def elementsDepth : List Json → Nat
  | [] => 0
  | element :: elements => max element.depth (elementsDepth elements)

def membersDepth : List (Key × Json) → Nat
  | [] => 0
  | (_, value) :: members => max value.depth (membersDepth members)

end

def isObject : Json → Bool
  | object _ => true
  | _ => false

def text? : Json → Option Text
  | string points => scalars? points
  | _ => none

end Json

end Showcase

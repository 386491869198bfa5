import Showcase.Registry.Bracket
import Showcase.Registry.Literal

/-!
# Import statements

A static import binds names to a source path: its default name, a namespace,
or names in braces, where `A as B` binds `B`.  The clause runs up to the next
string literal, which is the source.
-/

namespace Showcase.Registry

structure Import where
  span : Span
  source : Text
  defaultName? : Option Text
  names : List Text
  deriving DecidableEq, Repr

namespace Bracketed

/-- Whether the token at `i` starts a static import: the word `import`, not a
member after a dot, and neither a call nor a member access itself. -/
def startsImport (b : Bracketed) (i : Nat) : Bool :=
  match b.token? i with
  | some token =>
      token.kind == .name && token.text == "import".toList
        && (i == 0 || !b.hasText (i - 1) ['.'])
        && i + 1 < b.size && !b.hasText (i + 1) ['('] && !b.hasText (i + 1) ['.']
  | none => false

/-- Where the clause behind the word `import` at `i` starts: behind the
modifier `type`, if another name than `from` follows it. -/
def clauseStart (b : Bracketed) (i : Nat) : Nat :=
  if b.hasText (i + 1) "type".toList then
    match b.token? (i + 2) with
    | some token =>
        if token.kind == .name && token.text != "from".toList then i + 2 else i + 1
    | none => i + 1
  else i + 1

def defaultName? (b : Bracketed) (i : Nat) : Option Text :=
  match b.token? i with
  | some token =>
      if token.kind == .name &&
        (b.hasText (i + 1) "from".toList || b.hasText (i + 1) [',']) then
        some token.text
      else none
  | none => none

def isClauseWord (text : Text) : Bool :=
  text == "type".toList || text == "from".toList || text == "as".toList

/-- The names bound from index `i` on, and the index of the source literal
that ends the clause; the number of tokens if there is none. -/
def boundNames (b : Bracketed) (i : Nat) : List Text × Nat :=
  if i < b.size then
    match b.token? i with
    | none => ([], b.size)
    | some token =>
        if token.kind = .string then ([], i)
        else if token.kind = .name ∧ isClauseWord token.text = false then
          if b.hasText (i + 1) "as".toList then b.boundNames (i + 2)
          else
            let (names, stop) := b.boundNames (i + 1)
            (token.text :: names, stop)
        else b.boundNames (i + 1)
  else ([], b.size)
termination_by b.size - i

def importAt (b : Bracketed) (i : Nat) (start : Nat)
    (read : LiteralReader := Token.value) :
    Except Fault (Import × Nat) :=
  let clause := b.clauseStart i
  let (names, j) := b.boundNames clause
  match b.token? j with
  | none => .error .importWithoutSource
  | some source =>
      let last := if b.hasText (j + 1) [';'] then j + 1 else j
      let stop := ((b.token? last).map Token.stop).getD source.stop
      match read source with
      | .error fault => .error fault
      | .ok path => .ok (⟨⟨start, stop⟩, path, b.defaultName? clause, names⟩, last)

def importsFrom (b : Bracketed) (i : Nat) (read : LiteralReader := Token.value) :
    Except Fault (List Import) :=
  if i < b.size then
    if (b.partner? i).isSome then b.importsFrom (b.next i) read
    else if b.startsImport i then
      match b.importAt i (((b.token? i).map Token.start).getD 0) read with
      | .error fault => .error fault
      | .ok (statement, last) =>
          (b.importsFrom (max i last + 1) read).map (statement :: ·)
    else b.importsFrom (i + 1) read
  else .ok []
termination_by b.size - i
decreasing_by
  · have := b.lt_next i
    omega
  · omega
  · omega

def imports (b : Bracketed) (read : LiteralReader := Token.value) :
    Except Fault (List Import) :=
  b.importsFrom 0 read

end Bracketed

end Showcase.Registry

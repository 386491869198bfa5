import Showcase.Toml.Quoted
import Showcase.Toml.Scalar

/-!
# Reading TOML values

Arrays may spread over several lines and hold comments; inline tables may not.
An array or table in an inline table is complete: no later key of the inline
table reaches into it.
-/

namespace Showcase.Toml

def skipComment (text : Text) : Option Text :=
  match text with
  | '#' :: rest =>
      let comment := rest.takeWhile (· ≠ '\n')
      if comment.any (isForbidden false) then none else
        some (rest.drop comment.length)
  | _ => some text

def skipGap (inComment : Bool) : Text → Option Text
  | [] => some []
  | c :: rest =>
      if c = '\n' then skipGap false rest
      else if inComment then if isForbidden false c then none else skipGap true rest
      else if isSpace c then skipGap false rest
      else if c = '#' then skipGap true rest
      else some (c :: rest)

mutual

/-- The value at the start of a text and what follows it.  The fuel bounds the
number of steps. -/
def readValue (fuel : Nat) (text : Text) : Except Fault (Value × Text) :=
  match fuel with
  | 0 => .error .malformed
  | fuel + 1 =>
      match text with
      | '"' :: _ | '\x27' :: _ => do
          let (body, after) ← required (readString text)
          return (.string body, after)
      | '[' :: rest => do
          let (elements, after) ← readElements fuel rest
          return (.array elements, after)
      | '\x7b' :: rest =>
          match skipSpace rest with
          | '\x7d' :: after => .ok (.table [], after)
          | entries => do
              let (members, after) ← readEntries fuel [] [] entries
              return (.table members, after)
      | _ => readScalar text

def readElements (fuel : Nat) (text : Text) : Except Fault (List Value × Text) :=
  match fuel with
  | 0 => .error .malformed
  | fuel + 1 => do
      match ← required (skipGap false text) with
      | ']' :: after => return ([], after)
      | element =>
          let (value, after) ← readValue fuel element
          match ← required (skipGap false after) with
          | ']' :: after => return ([value], after)
          | ',' :: after =>
              let (values, after) ← readElements fuel after
              return (value :: values, after)
          | _ => .error .malformed

/-- The entries of an inline table up to its closing brace, at least one,
added to the members read before.  No key may reach into a complete value. -/
def readEntries (fuel : Nat) (members : Members) (complete : List Key)
    (text : Text) :
    Except Fault (Members × Text) :=
  match fuel with
  | 0 => .error .malformed
  | fuel + 1 => do
      let (key, rest) ← required (readAssigned text)
      let (value, after) ← readValue fuel rest
      if complete.any (·.isPrefixOf key) then .error .malformed
      let members ← required (insertAt false key value members)
      match skipSpace after with
      | '\x7d' :: after => return (members, after)
      | ',' :: after =>
          readEntries fuel members (if value.isNested then key :: complete
            else complete)
            (skipSpace after)
      | _ => .error .malformed

end

end Showcase.Toml

import Showcase.Json.Writer
import Showcase.Text.Integer
import Showcase.Text.Printable
import Showcase.Toml.Value

/-!
# TOML values in messages

`display` shows a value in a message.  A text is shown as it is; inside an
array or a table it is quoted, and a date or a time is written as the call that
would build it.  Only a value that `isWritable` can be shown.
-/

namespace Showcase.Toml

/-! ## Texts -/

/-- The quote around a text: an apostrophe, unless only the text holds one and
no double quote. -/
def quoteFor (text : Text) : Char :=
  if text.contains '\x27' && !text.contains '"' then '"' else '\x27'

def displayChar (quote c : Char) : Text :=
  if c = quote ∨ c = '\\' then ['\\', c]
  else if c = '\t' then ['\\', 't']
  else if c = '\n' then ['\\', 'n']
  else if c = '\r' then ['\\', 'r']
  else if isPrintable c then [c]
  else if c.toNat < 0x100 then '\\' :: 'x' :: (hex4 c.toNat).drop 2
  else if c.toNat < 0x10000 then '\\' :: 'u' :: hex4 c.toNat
  else '\\' :: 'U' :: (hex4 (c.toNat / 0x10000) ++ hex4 (c.toNat % 0x10000))

def quoted (text : Text) : Text :=
  let quote := quoteFor text
  quote :: text.flatMap (displayChar quote) ++ [quote]

/-! ## Dates and times -/

def zeroPadded (width n : Nat) : Text :=
  let digits := Nat.toDigits 10 n
  List.replicate (width - digits.length) '0' ++ digits

def Date.display (date : Date) : Text :=
  zeroPadded 4 date.year ++ '-' :: zeroPadded 2 date.month ++ '-' ::
    zeroPadded 2 date.day

def Time.display (time : Time) : Text :=
  zeroPadded 2 time.hour ++ ':' :: zeroPadded 2 time.minute ++ ':' ::
    zeroPadded 2 time.second
    ++ if time.micro = 0 then [] else '.' :: zeroPadded 6 time.micro

def displayOffset (minutes : Int) : Text :=
  (if minutes < 0 then '-' else '+')
    :: (zeroPadded 2 (minutes.natAbs / 60) ++ ':' ::
      zeroPadded 2 (minutes.natAbs % 60))

def call (name : String) (arguments : List Text) : Text :=
  name.toList ++ '(' :: List.intercalate ", ".toList arguments ++ [')']

def numbers (ns : List Nat) : List Text := ns.map (Nat.toDigits 10)

/-- The parts of a time, without a fraction of zero and without seconds of zero
before it. -/
def Time.parts (time : Time) : List Nat :=
  if time.micro ≠ 0 then [time.hour, time.minute, time.second, time.micro]
  else if time.second ≠ 0 then [time.hour, time.minute, time.second]
  else [time.hour, time.minute]

def Date.parts (date : Date) : List Nat := [date.year, date.month, date.day]

/-- An offset as a duration; a negative one is a day less and the seconds that
are left of it. -/
def offsetCall (minutes : Int) : Text :=
  if minutes = 0 then "datetime.timezone.utc".toList
  else
    let seconds := "seconds=".toList ++ Json.integer (60 * minutes % 86400)
    let parts := if minutes < 0 then ["days=-1".toList, seconds] else [seconds]
    call "datetime.timezone" [call "datetime.timedelta" parts]

/-! ## Values -/

def displayDouble (value : Double) : Text :=
  match value with
  | .nan => "nan".toList
  | .infinite negative => if negative then "-inf".toList else "inf".toList
  | value => value.render

mutual

def nested : Value → Text
  | .string text => quoted text
  | .integer n => Json.integer n
  | .float value => displayDouble value
  | .boolean true => "True".toList
  | .boolean false => "False".toList
  | .dateTime date time none =>
      call "datetime.datetime" (numbers (date.parts ++ time.parts))
  | .dateTime date time (some offset) =>
      call "datetime.datetime"
        (numbers (date.parts ++ time.parts) ++
          ["tzinfo=".toList ++ offsetCall offset])
  | .date date => call "datetime.date" (numbers date.parts)
  | .time time => call "datetime.time" (numbers time.parts)
  | .array elements => '[' :: nestedElements elements ++ [']']
  | .table members => '\x7b' :: nestedMembers members ++ ['\x7d']

def nestedElements : List Value → Text
  | [] => []
  | [value] => nested value
  | value :: values => nested value ++ ", ".toList ++ nestedElements values

def nestedMembers : List (Text × Value) → Text
  | [] => []
  | [(name, value)] => quoted name ++ ": ".toList ++ nested value
  | (name, value) :: members =>
      quoted name ++ ": ".toList ++ nested value ++ ", ".toList ++
        nestedMembers members

end

mutual

def Value.isWritable : Value → Bool
  | .integer n => Integer.isWritable n
  | .array elements => areWritable elements
  | .table members => membersWritable members
  | _ => true

def areWritable : List Value → Bool
  | [] => true
  | value :: values => value.isWritable && areWritable values

def membersWritable : List (Text × Value) → Bool
  | [] => true
  | (_, value) :: members => value.isWritable && membersWritable members

end

def Value.display (value : Value) : Text :=
  match value with
  | .string text => text
  | .dateTime day clock offset? =>
      day.display ++ ' ' :: clock.display ++ (offset?.map displayOffset).getD []
  | .date day => day.display
  | .time clock => clock.display
  | value => nested value

end Showcase.Toml

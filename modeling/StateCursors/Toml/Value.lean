import StateCursors.Decimal.Shortest
import StateCursors.Text.Quoted

/-!
# Values of a configuration file

The values that a TOML document holds, and how messages show them.
-/

namespace StateCursors.Toml

/-- A day. -/
structure Date where
  year : Nat
  month : Nat
  day : Nat
  deriving DecidableEq

/-- A time of day. -/
structure Time where
  hour : Nat
  minute : Nat
  second : Nat
  microsecond : Nat
  deriving DecidableEq

/-- A value; the offset of a date with time is in minutes. -/
inductive Value
  | string (text : String)
  | integer (number : Int)
  | float (number : Binary64)
  | boolean (truth : Bool)
  | date (date : Date)
  | time (time : Time)
  | dateTime (date : Date) (time : Time) (offset : Option Int)
  | array (items : List Value)
  | table (entries : List (String × Value))

/-- The entries of a table, in the order in which they were made. -/
abbrev Table := List (String × Value)

def listed (numbers : List Nat) : String :=
  String.intercalate ", " (numbers.map toString)

/-- The parts of a time that are shown: what is zero at the end is left out. -/
def Time.parts (time : Time) : List Nat :=
  if time.microsecond ≠ 0 then [time.hour, time.minute, time.second, time.microsecond]
  else if time.second ≠ 0 then [time.hour, time.minute, time.second]
  else [time.hour, time.minute]

def Date.parts (date : Date) : List Nat := [date.year, date.month, date.day]

/-- An offset as messages show it: whole days, and seconds from there. -/
def shownOffset (minutes : Int) : String :=
  if minutes = 0 then "datetime.timezone.utc"
  else
    let seconds := (minutes * 60) % 86400
    let days := (minutes * 60) / 86400
    let parts := (if days = 0 then [] else ["days=" ++ toString days]) ++
      (if seconds = 0 then [] else ["seconds=" ++ toString seconds])
    "datetime.timezone(datetime.timedelta(" ++ String.intercalate ", " parts ++ "))"

mutual

def Value.shown : Value → String
  | .string text => Text.quoted text
  | .integer number => toString number
  | .float number => Decimal.text number
  | .boolean truth => if truth then "True" else "False"
  | .date date => "datetime.date(" ++ listed date.parts ++ ")"
  | .time time => "datetime.time(" ++ listed time.parts ++ ")"
  | .dateTime date time offset =>
      let zone := match offset with
        | some minutes => ", tzinfo=" ++ shownOffset minutes
        | none => ""
      "datetime.datetime(" ++ listed (date.parts ++ time.parts) ++ zone ++ ")"
  | .array items => "[" ++ String.intercalate ", " (shownItems items) ++ "]"
  | .table entries => "\x7b" ++ String.intercalate ", " (shownEntries entries) ++ "\x7d"

def shownItems : List Value → List String
  | [] => []
  | value :: rest => value.shown :: shownItems rest

def shownEntries : List (String × Value) → List String
  | [] => []
  | (key, value) :: rest => (Text.quoted key ++ ": " ++ value.shown) :: shownEntries rest

end

end StateCursors.Toml

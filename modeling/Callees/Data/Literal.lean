import Callees.Data
import Callees.Number.Shortest
import Callees.Text.Printable

namespace Callees.Literal

/-- Numbers are shown plainly from `0.0001` to below `10 ^ 16`. -/
def numberLayout : Binary64.Layout := ⟨-4, 16, 2⟩

def float (x : Binary64) : String :=
  if x.isNaN then "nan"
  else if x.isFinite then String.ofList (numberLayout.write x)
  else if x.negative then "-inf" else "inf"

def commas (parts : List String) : String := ", ".intercalate parts

def time (t : TimeOfDay) : List Nat :=
  if t.microsecond ≠ 0 then [t.hour, t.minute, t.second, t.microsecond]
  else if t.second ≠ 0 then [t.hour, t.minute, t.second]
  else [t.hour, t.minute]

/-- Seconds ahead; a span behind is shown as a day back and seconds forward. -/
def zone (minutes : Int) : String :=
  if minutes = 0 then "datetime.timezone.utc"
  else
    let span := if minutes < 0 then "days=-1, seconds=" ++ toString (86400 + minutes * 60)
      else "seconds=" ++ toString (minutes * 60)
    "datetime.timezone(datetime.timedelta(" ++ span ++ "))"

def call (name : String) (arguments : List String) : String :=
  "datetime." ++ name ++ "(" ++ commas arguments ++ ")"

def date (d : Date) : List Nat := [d.year, d.month, d.day]

def numbers (ns : List Nat) : List String := ns.map toString

def moment : Moment → String
  | .date d => call "date" (numbers (date d))
  | .time t => call "time" (numbers (time t))
  | .floating d t => call "datetime" (numbers (date d ++ time t))
  | .zoned d t minutes =>
    call "datetime" (numbers (date d ++ time t) ++ ["tzinfo=" ++ zone minutes])

mutual

def text : Data → String
  | .null => "None"
  | .bool b => if b then "True" else "False"
  | .int n => toString n
  | .float x => float x
  | .text s => Text.quoted s
  | .moment m => moment m
  | .list ds => "[" ++ commas (itemTexts ds) ++ "]"
  | .record fields => "\x7b" ++ commas (fieldTexts fields) ++ "\x7d"

def itemTexts : List Data → List String
  | [] => []
  | d :: ds => text d :: itemTexts ds

def fieldTexts : List (String × Data) → List String
  | [] => []
  | (name, d) :: fields => (Text.quoted name ++ ": " ++ text d) :: fieldTexts fields

end

end Callees.Literal

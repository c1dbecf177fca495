import Callees.Data
import Callees.Number.Shortest

namespace Callees.Json

/-- Numbers are written plainly from `0.00001` to below `10 ^ 16`. -/
def numberLayout : Binary64.Layout := ⟨-5, 16, 1⟩

def hexDigit (n : Nat) : Char := Nat.digitChar (n % 16)

/-- Only the quote, the backslash and the controls below the space are escaped. -/
def escape (c : Char) : List Char :=
  if c = '"' then ['\\', '"']
  else if c = '\\' then ['\\', '\\']
  else if c = '\n' then ['\\', 'n']
  else if c = '\r' then ['\\', 'r']
  else if c = '\t' then ['\\', 't']
  else if c = '\x08' then ['\\', 'b']
  else if c = '\x0c' then ['\\', 'f']
  else if c.toNat < 0x20 then ['\\', 'u', '0', '0', hexDigit (c.toNat / 16), hexDigit c.toNat]
  else [c]

def string (s : String) : List Char := '"' :: s.toList.flatMap escape ++ ['"']

def float (x : Binary64) : List Char :=
  if x.isFinite then numberLayout.write x else "null".toList

def digits (width n : Nat) : List Char := Binary64.padLeft width (Nat.toDigits 10 n)

def date (d : Date) : List Char :=
  digits 4 d.year ++ '-' :: digits 2 d.month ++ '-' :: digits 2 d.day

def time (t : TimeOfDay) : List Char :=
  digits 2 t.hour ++ ':' :: digits 2 t.minute ++ ':' :: digits 2 t.second ++
    if t.microsecond = 0 then [] else '.' :: digits 6 t.microsecond

def moment : Moment → List Char
  | .date d => date d
  | .time t => time t
  | .floating d t => date d ++ 'T' :: time t
  | .zoned d t minutes =>
    date d ++ 'T' :: time t ++ (if minutes < 0 then '-' else '+') ::
      digits 2 (minutes.natAbs / 60) ++ ':' :: digits 2 (minutes.natAbs % 60)

/-- Data without parts. -/
def atom : Data → List Char
  | .null => "null".toList
  | .bool b => (if b then "true" else "false").toList
  | .int n => (toString n).toList
  | .float x => float x
  | .text s => string s
  | .moment m => '"' :: moment m ++ ['"']
  | .list _ | .record _ => []

/-- A line break and the spaces of one level, or nothing on a single line. -/
def newline (indent : Option Nat) : List Char :=
  match indent with
  | some n => '\n' :: List.replicate (2 * n) ' '
  | none => []

def deeper (indent : Option Nat) : Option Nat := indent.map (· + 1)

def colon (indent : Option Nat) : List Char := if indent.isSome then [':', ' '] else [':']

mutual

/-- `indent` is the level of the surrounding lines, if the text is indented at all. -/
def write (indent : Option Nat) : Data → List Char
  | .list [] => ['[', ']']
  | .list (d :: ds) =>
    '[' :: newline (deeper indent) ++ write (deeper indent) d ++ writeItems (deeper indent) ds ++
      newline indent ++ [']']
  | .record [] => ['\x7b', '\x7d']
  | .record ((name, d) :: fields) =>
    '\x7b' :: newline (deeper indent) ++ string name ++ colon indent ++ write (deeper indent) d ++
      writeFields (deeper indent) fields ++ newline indent ++ ['\x7d']
  | d => atom d

def writeItems (indent : Option Nat) : List Data → List Char
  | [] => []
  | d :: ds => ',' :: newline indent ++ write indent d ++ writeItems indent ds

def writeFields (indent : Option Nat) : List (String × Data) → List Char
  | [] => []
  | (name, d) :: fields =>
    ',' :: newline indent ++ string name ++ colon indent ++ write indent d ++
      writeFields indent fields

end

/-- Places a field before the first one whose name is not smaller. -/
def insertField (field : String × Data) : List (String × Data) → List (String × Data)
  | [] => [field]
  | f :: fs => if f.1 < field.1 then f :: insertField field fs else field :: f :: fs

mutual

/-- The same data with all fields in the order of their names. -/
def sorted : Data → Data
  | .list ds => .list (sortedItems ds)
  | .record fields => .record (sortedFields fields)
  | d => d

def sortedItems : List Data → List Data
  | [] => []
  | d :: ds => sorted d :: sortedItems ds

def sortedFields : List (String × Data) → List (String × Data)
  | [] => []
  | (name, d) :: fields => insertField (name, sorted d) (sortedFields fields)

end

mutual

/-- Whether every whole number fits 64 bits, with or without a sign. -/
def fits : Data → Bool
  | .int n => -0x8000000000000000 ≤ n && n ≤ 0xFFFFFFFFFFFFFFFF
  | .list ds => itemsFit ds
  | .record fields => fieldsFit fields
  | _ => true

def itemsFit : List Data → Bool
  | [] => true
  | d :: ds => fits d && itemsFit ds

def fieldsFit : List (String × Data) → Bool
  | [] => true
  | (_, d) :: fields => fits d && fieldsFit fields

end

/-- The text of `d`, unless a number in it is too wide. -/
def text? (d : Data) (indented : Bool) : Option String :=
  if fits d then
    some (String.ofList (write (if indented then some 0 else none) (sorted d)))
  else none

/-- One text a line. -/
def lines? (ds : List Data) : Option String :=
  (ds.mapM (text? · false)).map fun texts => String.join (texts.map (· ++ "\n"))

end Callees.Json

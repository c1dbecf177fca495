import Callees.Data
import Callees.Data.JsonReader
import Callees.Text.Classes

namespace Callees.Toml

/-- Why a text cannot be read. -/
inductive Fault
  | malformed
  | tooManyDigits (count : Nat)
  | tooDeep
  deriving Repr, DecidableEq

abbrev Scan (α : Type) := List Char → Option (α × List Char)

def isControl (c : Char) : Bool := c.toNat < 0x20 || c.toNat == 0x7F

def skipSpace (cs : List Char) : List Char := cs.dropWhile Text.isSpaceOrTab

def isBareKey (c : Char) : Bool := c.isAlphanum || c == '-' || c == '_'

def isHex (c : Char) : Bool := (Text.hexValue? c).isSome
def isOctal (c : Char) : Bool := '0' ≤ c && c ≤ '7'
def isBinary (c : Char) : Bool := c == '0' || c == '1'

/-- Digits after the first; an underscore may stand between two. -/
def moreDigits (isDigit : Char → Bool) : List Char → List Char × List Char
  | [] => ([], [])
  | [c] => if isDigit c then ([c], []) else ([], [c])
  | c :: d :: cs =>
    if isDigit c then
      let (ds, rest) := moreDigits isDigit (d :: cs)
      (c :: ds, rest)
    else if c = '_' ∧ isDigit d then
      let (ds, rest) := moreDigits isDigit cs
      (d :: ds, rest)
    else ([], c :: d :: cs)

def digits? (isDigit : Char → Bool) : Scan (List Char)
  | [] => none
  | c :: cs =>
    if isDigit c then
      let (ds, rest) := moreDigits isDigit cs
      some (c :: ds, rest)
    else none

def valueIn (base : Nat) (ds : List Char) : Nat :=
  ds.foldl (fun n c => base * n + (Text.hexValue? c).getD 0) 0

def based? (base : Nat) (isDigit : Char → Bool) (cs : List Char) : Option (Data × List Char) :=
  (digits? isDigit cs).map fun (ds, rest) => (.int (valueIn base ds), rest)

/-- A zero that leads a longer number is a number of its own. -/
def wholePart? : Scan (List Char)
  | '0' :: cs => some (['0'], cs)
  | cs => digits? Char.isDigit cs

def fraction? : Scan (List Char)
  | '.' :: cs => digits? Char.isDigit cs
  | _ => none

def exponent? : Scan Int
  | e :: cs =>
    if e = 'e' ∨ e = 'E' then
      let (negative, cs) := JsonReader.sign cs
      (digits? Char.isDigit cs).map fun (ds, rest) =>
        (if negative then -(valueIn 10 ds : Int) else valueIn 10 ds, rest)
    else none
  | [] => none

def wholeNumber (negative : Bool) (ds : List Char) : Except Fault Data :=
  if ds.length > Text.maxDigits then .error (.tooManyDigits ds.length)
  else
    let n : Int := valueIn 10 ds
    .ok (.int (if negative then -n else n))

def decimal? : Scan (Except Fault Data) := fun cs => do
  let (negative, cs) := JsonReader.sign cs
  let (whole, cs) ← wholePart? cs
  let (fraction, cs') := (fraction? cs).getD ([], cs)
  let (exponent, rest) := match exponent? cs' with
    | some (e, rest) => (some e, rest)
    | none => (none, cs')
  if fraction.isEmpty ∧ exponent.isNone then some (wholeNumber negative whole, rest)
  else
    some (.ok (.float (Binary64.ofDecimal negative (valueIn 10 (whole ++ fraction))
      (exponent.getD 0 - fraction.length))), rest)

/-- Only decimal numbers can be too long. -/
def number? : Scan (Except Fault Data) := fun cs =>
  let prefixed := match cs with
    | '0' :: 'x' :: cs => based? 16 isHex cs
    | '0' :: 'o' :: cs => based? 8 isOctal cs
    | '0' :: 'b' :: cs => based? 2 isBinary cs
    | _ => none
  match prefixed with
  | some (d, rest) => some (.ok d, rest)
  | none => decimal? cs

def special? (cs : List Char) : Option (Data × List Char) :=
  let (negative, cs) := JsonReader.sign cs
  match cs with
  | 'i' :: 'n' :: 'f' :: rest => some (.float (.infinity negative), rest)
  | 'n' :: 'a' :: 'n' :: rest => some (.float .nan, rest)
  | _ => none

/-- Exactly `n` digits with a value in the given bounds. -/
def field? (n low high : Nat) (cs : List Char) : Option (Nat × List Char) :=
  let ds := cs.take n
  let v := valueIn 10 ds
  if ds.length = n ∧ ds.all Char.isDigit ∧ low ≤ v ∧ v ≤ high then some (v, cs.drop n) else none

def expect? (c : Char) : List Char → Option (List Char)
  | [] => none
  | d :: cs => if c = d then some cs else none

/-- Digits of a second beyond the sixth do not count. -/
def microseconds (cs : List Char) : Nat × List Char :=
  match cs with
  | '.' :: cs' =>
    let ds := cs'.takeWhile Char.isDigit
    if ds.isEmpty then (0, cs)
    else (valueIn 10 ((ds ++ List.replicate 6 '0').take 6), cs'.drop ds.length)
  | _ => (0, cs)

def time? (cs : List Char) : Option (TimeOfDay × List Char) := do
  let (hour, cs) ← field? 2 0 23 cs
  let cs ← expect? ':' cs
  let (minute, cs) ← field? 2 0 59 cs
  let cs ← expect? ':' cs
  let (second, cs) ← field? 2 0 59 cs
  let (micro, cs) := microseconds cs
  some (⟨hour, minute, second, micro⟩, cs)

def date? (cs : List Char) : Option (Date × List Char) := do
  let (year, cs) ← field? 4 0 9999 cs
  let cs ← expect? '-' cs
  let (month, cs) ← field? 2 1 12 cs
  let cs ← expect? '-' cs
  let (day, cs) ← field? 2 1 31 cs
  some (⟨year, month, day⟩, cs)

def isLeap (year : Nat) : Bool := year % 4 == 0 && (year % 100 != 0 || year % 400 == 0)

def daysIn (year month : Nat) : Nat :=
  if month = 2 then (if isLeap year then 29 else 28)
  else if [4, 6, 9, 11].contains month then 30 else 31

def Valid (d : Date) : Bool := 1 ≤ d.year && d.day ≤ daysIn d.year d.month

/-- Minutes ahead, or nothing where no zone is written. -/
def zone? : Scan Int
  | 'Z' :: cs | 'z' :: cs => some (0, cs)
  | c :: cs =>
    if c = '+' ∨ c = '-' then do
      let (hour, cs) ← field? 2 0 23 cs
      let cs ← expect? ':' cs
      let (minute, cs) ← field? 2 0 59 cs
      let minutes : Int := (60 * hour + minute : Nat)
      some (if c = '-' then -minutes else minutes, cs)
    else none
  | [] => none

/-- The time that may follow a date. -/
def timeAfter? : Scan TimeOfDay
  | c :: cs => if c = 'T' ∨ c = 't' ∨ c = ' ' then time? cs else none
  | [] => none

/-- A date or a time, if the text begins with one; a date that the calendar lacks is no value. -/
def moment? (cs : List Char) : Option (Option Moment × List Char) :=
  match date? cs with
  | some (d, cs) =>
    let keep := fun (m : Moment) => if Valid d then some m else none
    match timeAfter? cs with
    | none => some (keep (.date d), cs)
    | some (t, cs) =>
      match zone? cs with
      | some (minutes, cs) => some (keep (.zoned d t minutes), cs)
      | none => some (keep (.floating d t), cs)
  | none => (time? cs).map fun (t, cs) => (some (.time t), cs)

/-- The character with a given code in `n` hexadecimal digits. -/
def hexChar? (n : Nat) (cs : List Char) : Option (Char × List Char) :=
  let ds := cs.take n
  let v := valueIn 16 ds
  if ds.length = n ∧ ds.all isHex ∧ v.isValidChar then some (Char.ofNat v, cs.drop n) else none

def escaped? : Scan Char
  | 'b' :: cs => some ('\x08', cs)
  | 't' :: cs => some ('\t', cs)
  | 'n' :: cs => some ('\n', cs)
  | 'f' :: cs => some ('\x0c', cs)
  | 'r' :: cs => some ('\r', cs)
  | '"' :: cs => some ('"', cs)
  | '\\' :: cs => some ('\\', cs)
  | 'u' :: cs => hexChar? 4 cs
  | 'U' :: cs => hexChar? 8 cs
  | _ => none

/-- What follows a backslash that ends a line: all blanks up to the next text are passed over. -/
def joinedLine? (cs : List Char) : Option (List Char) :=
  match skipSpace cs with
  | [] => some []
  | '\n' :: rest => some (rest.dropWhile fun c => Text.isSpaceOrTab c || c == '\n')
  | _ => none

/-- At most two more quotes belong to a string that ends in a run of quotes. -/
def closingQuotes (quote : Char) (cs : List Char) : List Char × List Char :=
  let extra := (cs.takeWhile (· == quote)).take 2
  (extra, cs.drop extra.length)

/-- The characters of a string in double quotes, read in at most `n` steps. -/
def basic? (multiline : Bool) : Nat → Scan (List Char)
  | 0, _ => none
  | _ + 1, [] => none
  | n + 1, c :: cs =>
    if c = '"' then
      if !multiline then some ([], cs)
      else match cs with
        | '"' :: '"' :: rest => some (closingQuotes '"' rest)
        | _ => (basic? multiline n cs).map fun (s, rest) => ('"' :: s, rest)
    else if c = '\\' then
      match escaped? cs with
      | some (e, cs) => (basic? multiline n cs).map fun (s, rest) => (e :: s, rest)
      | none =>
        if multiline && !cs.isEmpty then (joinedLine? cs).bind (basic? multiline n)
        else none
    else if isControl c && c != '\t' && !(multiline && c == '\n') then none
    else (basic? multiline n cs).map fun (s, rest) => (c :: s, rest)

/-- The characters up to a single quote, or up to three of them. -/
def literal? (multiline : Bool) : Scan (List Char)
  | [] => none
  | c :: cs =>
    if c = '\'' then
      if !multiline then some ([], cs)
      else match cs with
        | '\'' :: '\'' :: rest => some (closingQuotes '\'' rest)
        | _ => (literal? multiline cs).map fun (s, rest) => ('\'' :: s, rest)
    else if isControl c && c != '\t' && !(multiline && c == '\n') then none
    else (literal? multiline cs).map fun (s, rest) => (c :: s, rest)

def dropBreak : List Char → List Char
  | '\n' :: cs => cs
  | cs => cs

/-- A string of any of the four forms. -/
def string? (cs : List Char) : Option (String × List Char) :=
  (match cs with
    | '"' :: '"' :: '"' :: cs => basic? true (cs.length + 1) (dropBreak cs)
    | '\'' :: '\'' :: '\'' :: cs => literal? true (dropBreak cs)
    | '"' :: cs => basic? false (cs.length + 1) cs
    | '\'' :: cs => literal? false cs
    | _ => none).map fun (s, rest) => (String.ofList s, rest)

end Callees.Toml

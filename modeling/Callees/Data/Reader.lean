import Callees.Data
import Callees.Data.Issue
import Callees.Data.JsonReader
import Callees.Text.Classes

namespace Callees

abbrev Checked (α : Type) := Except (List Issue) α

/-- Reads a value of one kind. -/
abbrev Reader (α : Type) := Data → Checked α

namespace Checked

variable {α β : Type}

def one (problem : Problem) : Checked α := .error [⟨[], problem⟩]

def within (step : Step) : Checked α → Checked α
  | .ok a => .ok a
  | .error issues => .error (issues.map (Issue.within step))

/-- Both results, or the issues of both. -/
def both (a : Checked α) (b : Checked β) : Checked (α × β) :=
  match a, b with
  | .ok a, .ok b => .ok (a, b)
  | .error e, .ok _ => .error e
  | .ok _, .error e => .error e
  | .error e, .error e' => .error (e ++ e')

/-- All results, each under its index, or the issues of all. -/
def items (i : Nat) : List (Checked α) → Checked (List α)
  | [] => .ok []
  | c :: cs => (both (within (.item i) c) (items (i + 1) cs)).map fun (a, as) => a :: as

end Checked

namespace Reader

variable {α β : Type}
open Checked

/-- Single underscores may stand between digits. -/
def plainDigits? : List Char → Option (List Char)
  | [] => none
  | [c] => if c.isDigit then some [c] else none
  | c :: '_' :: cs => if c.isDigit then (plainDigits? cs).map (c :: ·) else none
  | c :: cs => if c.isDigit then (plainDigits? cs).map (c :: ·) else none

/-- Blanks that may surround a number: not the separators of ASCII. -/
def isSpace (c : Char) : Bool := Text.isBlank c && !(0x1C ≤ c.toNat && c.toNat ≤ 0x1F)

/-- A whole number with a sign and with zeros after a point, if it has those. -/
def wholeNumber? (cs : List Char) : Option Int :=
  let cs := Text.trim isSpace cs
  let (negative, cs) := match cs with
    | '-' :: cs => (true, cs)
    | '+' :: cs => (false, cs)
    | cs => (false, cs)
  let whole := cs.takeWhile (· != '.')
  let zeros := (cs.dropWhile (· != '.')).drop 1
  if zeros.all (· == '0') then
    (plainDigits? whole).map fun ds =>
      let n : Int := JsonReader.natOf ds
      if negative then -n else n
  else none

def int : Reader Int
  | .int n => .ok n
  | .bool b => .ok (if b then 1 else 0)
  | .float x =>
    if !x.isFinite then one .notFinite
    else match x.toInt? with
      | some n => .ok n
      | none => one .fractional
  | .text s => match wholeNumber? s.toList with
    | some n => .ok n
    | none => one .unreadableInteger
  | _ => one .notInteger

def atLeast (low : Int) : Reader Int := fun d => do
  let n ← int d
  if n < low then one .notAtLeast else .ok n

def greaterThan (low : Int) : Reader Int := fun d => do
  let n ← int d
  if n ≤ low then one .notGreater else .ok n

def boolOfInt (n : Int) : Checked Bool :=
  if n = 0 then .ok false else if n = 1 then .ok true else one .unreadableBoolean

def bool : Reader Bool
  | .bool b => .ok b
  | .int n => boolOfInt n
  | .float x => match x.toInt? with
    | some n => boolOfInt n
    | none => one .unreadableBoolean
  | .text s =>
    let word := String.ofList (s.toList.map Char.toLower)
    if ["true", "t", "yes", "y", "on", "1"].contains word then .ok true
    else if ["false", "f", "no", "n", "off", "0"].contains word then .ok false
    else one .unreadableBoolean
  | _ => one .notBoolean

def text : Reader String
  | .text s => .ok s
  | _ => one .notText

def nonemptyText : Reader String := fun d => do
  let s ← text d
  if s = "" then one .tooShort else .ok s

def identifier : Reader String := fun d => do
  let s ← text d
  if Text.isIdentifier s.toList then .ok s else one .malformed

/-- One of the words that `find` knows. -/
def word (find : String → Option α) : Reader α
  | .text s => match find s with
    | some a => .ok a
    | none => one .unknownWord
  | _ => one .unknownWord

def list (read : Reader α) : Reader (List α)
  | .list ds => Checked.items 0 (ds.map read)
  | _ => one .notList

def sequence (read : Reader α) : Reader (List α)
  | .list ds => Checked.items 0 (ds.map read)
  | _ => one .notSequence

def nullable (read : Reader α) : Reader (Option α)
  | .null => .ok none
  | d => (read d).map some

def fields : Reader (List (String × Data))
  | .record fs => .ok fs
  | _ => one .notRecord

def required (name : String) (read : Reader α) (fs : List (String × Data)) : Checked α :=
  within (.field name) (match fs.lookup name with
    | some d => read d
    | none => one .missing)

def optional (name : String) (default : α) (read : Reader α) (fs : List (String × Data)) :
    Checked α :=
  match fs.lookup name with
  | some d => within (.field name) (read d)
  | none => .ok default

/-- An issue for every field that is not known. -/
def known (names : List String) (fs : List (String × Data)) : Checked Unit :=
  match fs.filter fun f => !names.contains f.1 with
  | [] => .ok ()
  | unknown => .error (unknown.map fun f => ⟨[.field f.1], .unknownField⟩)

end Reader

end Callees

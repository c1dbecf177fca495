import Callees.Data
import Callees.Text.Classes

namespace Callees.JsonReader

def skipSpace (cs : List Char) : List Char :=
  cs.dropWhile fun c => c == ' ' || c == '\t' || c == '\n' || c == '\r'

def hex4? : List Char → Option (Nat × List Char)
  | a :: b :: c :: d :: cs => do
    let a ← Text.hexValue? a
    let b ← Text.hexValue? b
    let c ← Text.hexValue? c
    let d ← Text.hexValue? d
    some (((a * 16 + b) * 16 + c) * 16 + d, cs)
  | _ => none

/-- A code unit of a pair counts together with its partner; alone it is no character. -/
def codePoint (unit : Nat) (cs : List Char) : Char × List Char :=
  if 0xD800 ≤ unit ∧ unit < 0xDC00 then
    match cs with
    | '\\' :: 'u' :: rest =>
      match hex4? rest with
      | some (low, rest') =>
        if 0xDC00 ≤ low ∧ low < 0xE000 then
          (Char.ofNat (0x10000 + (unit - 0xD800) * 0x400 + (low - 0xDC00)), rest')
        else ('\uFFFD', cs)
      | none => ('\uFFFD', cs)
    | _ => ('\uFFFD', cs)
  else if 0xDC00 ≤ unit ∧ unit < 0xE000 then ('\uFFFD', cs)
  else (Char.ofNat unit, cs)

def escaped? : Char → Option Char
  | '"' => some '"'
  | '\\' => some '\\'
  | '/' => some '/'
  | 'b' => some '\x08'
  | 'f' => some '\x0c'
  | 'n' => some '\n'
  | 'r' => some '\r'
  | 't' => some '\t'
  | _ => none

/-- The characters up to the closing quote, read in at most `n` steps, and what follows it. -/
def characters? : Nat → List Char → Option (List Char × List Char)
  | 0, _ => none
  | _ + 1, [] => none
  | n + 1, c :: cs =>
    if c = '"' then some ([], cs)
    else if c = '\\' then
      match cs with
      | 'u' :: cs =>
        match hex4? cs with
        | some (unit, cs) =>
          let (c, cs) := codePoint unit cs
          (characters? n cs).map fun (s, rest) => (c :: s, rest)
        | none => none
      | e :: cs =>
        match escaped? e with
        | some c => (characters? n cs).map fun (s, rest) => (c :: s, rest)
        | none => none
      | [] => none
    else if c.toNat < 0x20 then none
    else (characters? n cs).map fun (s, rest) => (c :: s, rest)

def string? (cs : List Char) : Option (String × List Char) :=
  (characters? (cs.length + 1) cs).map fun (s, rest) => (String.ofList s, rest)

def natOf (digits : List Char) : Nat :=
  digits.foldl (fun n c => 10 * n + (c.toNat - '0'.toNat)) 0

def digits (cs : List Char) : List Char × List Char := (cs.takeWhile Char.isDigit, cs.dropWhile Char.isDigit)

/-- One digit or more. -/
def digits? (cs : List Char) : Option (List Char × List Char) :=
  let (ds, rest) := digits cs
  if ds.isEmpty then none else some (ds, rest)

/-- A zero that leads is a number of its own. -/
def wholePart? : List Char → Option (List Char × List Char)
  | '0' :: cs => some (['0'], cs)
  | cs => digits? cs

/-- The digits after a point, if there is one. -/
def fractionPart? : List Char → Option (List Char × List Char)
  | '.' :: cs => digits? cs
  | cs => some ([], cs)

/-- Whether there is a minus sign, and what follows the sign. -/
def sign : List Char → Bool × List Char
  | '-' :: cs => (true, cs)
  | '+' :: cs => (false, cs)
  | cs => (false, cs)

def exponentPart? : List Char → Option (Option Int × List Char)
  | [] => some (none, [])
  | e :: cs =>
    if e = 'e' ∨ e = 'E' then
      let (negative, cs) := sign cs
      (digits? cs).map fun (ds, rest) =>
        (some (if negative then -(natOf ds : Int) else natOf ds), rest)
    else some (none, e :: cs)

def number? (cs : List Char) : Option (Data × List Char) := do
  let (negative, cs) := match cs with
    | '-' :: cs => (true, cs)
    | cs => (false, cs)
  let (whole, cs) ← wholePart? cs
  let (fraction, cs) ← fractionPart? cs
  let (exponent, rest) ← exponentPart? cs
  if fraction.isEmpty ∧ exponent.isNone then
    some (.int (if negative then -(natOf whole : Int) else natOf whole), rest)
  else
    some (.float (Binary64.ofDecimal negative (natOf (whole ++ fraction))
      (exponent.getD 0 - fraction.length)), rest)

/-- What is left after a given word. -/
def after? : List Char → List Char → Option (List Char)
  | [], cs => some cs
  | _ :: _, [] => none
  | w :: ws, c :: cs => if w = c then after? ws cs else none

mutual

/-- A value, read in at most `n` steps, and what follows it. -/
def value? : Nat → List Char → Option (Data × List Char)
  | 0, _ => none
  | n + 1, cs =>
    match skipSpace cs with
    | '"' :: cs => (string? cs).map fun (s, rest) => (.text s, rest)
    | '[' :: cs =>
      match skipSpace cs with
      | ']' :: rest => some (.list [], rest)
      | cs => (items? n cs).map fun (ds, rest) => (.list ds, rest)
    | '\x7b' :: cs =>
      match skipSpace cs with
      | '\x7d' :: rest => some (.record [], rest)
      | cs => (fields? n cs).map fun (fs, rest) => (.record fs, rest)
    | 't' :: cs => (after? "rue".toList cs).map (.bool true, ·)
    | 'f' :: cs => (after? "alse".toList cs).map (.bool false, ·)
    | 'n' :: cs => (after? "ull".toList cs).map (.null, ·)
    | cs => number? cs

def items? : Nat → List Char → Option (List Data × List Char)
  | 0, _ => none
  | n + 1, cs => do
    let (d, rest) ← value? n cs
    match skipSpace rest with
    | ']' :: rest => some ([d], rest)
    | ',' :: rest =>
      let (ds, rest) ← items? n rest
      some (d :: ds, rest)
    | _ => none

def fields? : Nat → List Char → Option (List (String × Data) × List Char)
  | 0, _ => none
  | n + 1, cs =>
    match skipSpace cs with
    | '"' :: cs => do
      let (name, rest) ← string? cs
      match skipSpace rest with
      | ':' :: rest =>
        let (d, rest) ← value? n rest
        match skipSpace rest with
        | '\x7d' :: rest => some ([(name, d)], rest)
        | ',' :: rest =>
          let (fs, rest) ← fields? n rest
          some ((name, d) :: fs, rest)
        | _ => none
      | _ => none
    | _ => none

end

/-- The value that a whole text is, or nothing if it is no JSON. -/
def read? (s : String) : Option Data :=
  let cs := s.toList
  match value? (cs.length + 1) cs with
  | some (d, rest) => if (skipSpace rest).isEmpty then some d else none
  | none => none

end Callees.JsonReader

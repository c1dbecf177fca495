import Callees.Failure
import Callees.Position
import Callees.Text.Classes
import Callees.Text.Lines

namespace Callees

structure Document where
  uri : String
  text : String
  languageId : Option String
  version : Int
  deriving Repr, DecidableEq

namespace Document

/-- How a document is named in a message. -/
def label (d : Document) : String :=
  "TextDocument(uri=" ++ Text.quoted d.uri ++ ", version=" ++ toString d.version ++ ")"

def chars (d : Document) : List Char := d.text.toList

def lines (d : Document) : List Text.Line := Text.lines d.chars

def lineTexts (d : Document) : List (List Char) := d.lines.map Text.Line.chars

def lineCount (d : Document) : Nat := d.lines.length

def lineAt (d : Document) (line : Int) : Except Failure (List Char) :=
  match if line < 0 then none else d.lineTexts[line.toNat]? with
  | some chars => .ok chars
  | none => .error (.lineOutOfRange line d.lineCount)

def offsetAt (d : Document) (p : Position) : Nat :=
  match d.lines[p.line]? with
  | some l => l.start + min p.character l.chars.length
  | none => d.chars.length

/-- The last line that starts at or before `offset`, and its number. -/
def lineOf (offset : Nat) (number : Nat) : List Text.Line → Option (Nat × Text.Line)
  | [] => none
  | l :: ls =>
    if l.start ≤ offset then (lineOf offset (number + 1) ls).or (some (number, l)) else none

/-- An offset within a line break counts as the end of its line. -/
def positionAt (d : Document) (offset : Int) : Position :=
  let o := min offset.toNat d.chars.length
  match lineOf o 0 d.lines with
  | some (n, l) => ⟨n, min (o - l.start) l.chars.length⟩
  | none => ⟨0, 0⟩

def slice (cs : List Char) (start stop : Nat) : List Char := (cs.take stop).drop start

def charsIn (d : Document) (r : Range) : List Char :=
  slice d.chars (d.offsetAt r.start) (d.offsetAt r.stop)

def textIn (d : Document) (r : Range) : String := String.ofList (d.charsIn r)

/-- Start and length of each longest run of identifier characters. `o` is the offset of the first
character given, `run` how many identifier characters come right before it. -/
def wordsFrom (o run : Nat) : List Char → List (Nat × Nat)
  | [] => if run = 0 then [] else [(o - run, run)]
  | c :: cs =>
    if Text.isIdentChar c then wordsFrom (o + 1) (run + 1) cs
    else if run = 0 then wordsFrom (o + 1) 0 cs
    else (o - run, run) :: wordsFrom (o + 1) 0 cs

/-- The word whose span touches `p`, its end included. -/
def wordAt? (d : Document) (p : Position) : Option Range := do
  let line ← d.lines[p.line]?
  let (start, width) ← (wordsFrom 0 0 line.chars).find? fun (start, width) =>
    start ≤ p.character && p.character ≤ start + width
  some (Range.onLine ⟨p.line, start⟩ width)

end Document

structure Shelf where
  documents : List (String × Document)
  deriving Repr

namespace Shelf

def empty : Shelf := ⟨[]⟩

/-- Takes the place of a document of the same name. -/
def add (s : Shelf) (d : Document) : Shelf :=
  ⟨(d.uri, d) :: s.documents.filter (·.1 != d.uri)⟩

def ofList (ds : List Document) : Shelf := ds.foldl add empty

def open_ (s : Shelf) (uri : String) : Except Failure Document :=
  match s.documents.lookup uri with
  | some d => .ok d
  | none => .error (.noOpenDocument uri)

end Shelf

end Callees

import Callees.Text.Classes

namespace Callees.Text

/-- A line without its break, and the offset of its first character in the text. -/
structure Line where
  start : Nat
  chars : List Char
  deriving Repr, DecidableEq

namespace Line

def stop (l : Line) : Nat := l.start + l.chars.length

end Line

/-- The first line of a text that starts at offset `o`, and the lines after it. -/
def linesFrom (o : Nat) : List Char → Line × List Line
  | [] => (⟨o, []⟩, [])
  | '\r' :: '\n' :: cs =>
    let rest := linesFrom (o + 2) cs
    (⟨o, []⟩, rest.1 :: rest.2)
  | c :: cs =>
    let rest := linesFrom (o + 1) cs
    if c = '\r' ∨ c = '\n' then (⟨o, []⟩, rest.1 :: rest.2)
    else (⟨o, c :: rest.1.chars⟩, rest.2)

def lines (cs : List Char) : List Line :=
  let ls := linesFrom 0 cs
  ls.1 :: ls.2

theorem lines_ne_nil (cs : List Char) : lines cs ≠ [] := by simp [lines]

/-- Every break becomes `\n`, as it does when a file is read as text. -/
def unifyBreaks : List Char → List Char
  | [] => []
  | '\r' :: '\n' :: cs => '\n' :: unifyBreaks cs
  | c :: cs => (if c = '\r' then '\n' else c) :: unifyBreaks cs

/-- The pieces between occurrences of `sep`; one more piece than occurrences. -/
def splitOnChar (sep : Char) : List Char → List (List Char)
  | [] => [[]]
  | c :: cs =>
    if c = sep then [] :: splitOnChar sep cs
    else match splitOnChar sep cs with
      | [] => [[c]]
      | piece :: pieces => (c :: piece) :: pieces


def indentOf (line : List Char) : List Char := line.takeWhile isSpaceOrTab

def commonPrefix : List Char → List Char → List Char
  | a :: as, b :: bs => if a = b then a :: commonPrefix as bs else []
  | _, _ => []

/-- The margin of lines of which none is only spaces and tabs, unless it is empty. -/
def margin : List (List Char) → List Char
  | [] => []
  | [line] => indentOf line
  | line :: lines => commonPrefix (indentOf line) (margin lines)

def clearBlank (line : List Char) : List Char := if line.all isSpaceOrTab then [] else line

/-- Lines end at line feeds here. -/
def dedent (cs : List Char) : List Char :=
  let lines := (splitOnChar '\n' cs).map clearBlank
  let m := margin (lines.filter (!·.isEmpty))
  List.intercalate ['\n'] (lines.map (·.drop m.length))

/-- All characters that end a line where text is shown. -/
def endsLine (c : Char) : Bool :=
  ['\n', '\r', '\x0b', '\x0c', '\x1c', '\x1d', '\x1e', '\x85', '\u2028', '\u2029'].contains c

/-- The lines as they are shown; the end of the last line makes no further one. -/
def shownLines : List Char → List (List Char)
  | [] => []
  | '\r' :: '\n' :: cs => [] :: shownLines cs
  | c :: cs =>
    if endsLine c then [] :: shownLines cs
    else
      match shownLines cs with
      | line :: lines => (c :: line) :: lines
      | [] => [[c]]

end Callees.Text

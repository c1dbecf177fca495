import Callees.Text.Classes

namespace Callees

inductive Pattern
  /-- Any one character of a class. -/
  | one (accepts : Char → Bool)
  | nothing
  | next (first second : Pattern)
  | either (first second : Pattern)
  | many (body : Pattern)
  /-- The part of the text that a match reports as its name. -/
  | named (body : Pattern)
  /-- Holds where no identifier character comes right before. -/
  | wordEdge
  /-- Holds where the text is at its start. -/
  | atStart
  | atEnd
  /-- Holds at the end, and before a line feed that ends the text. -/
  | atLastBreak

namespace Pattern

/-- A place in a text: the character before it, how many there are before it, and the rest. -/
structure Cursor where
  before : Option Char
  offset : Nat
  rest : List Char
  name : Option (Nat × Nat)
  deriving Repr, DecidableEq

namespace Cursor

def step (s : Cursor) (c : Char) (rest : List Char) : Cursor :=
  ⟨some c, s.offset + 1, rest, s.name⟩

end Cursor

/-- Repeats `body` at most `n` times, more turns first; a turn that takes no character is no turn. -/
def runMany {α : Type} (body : Cursor → (Cursor → Option α) → Option α) :
    Nat → Cursor → (Cursor → Option α) → Option α
  | 0, s, k => k s
  | n + 1, s, k =>
    match body s fun t => if s.offset < t.offset then runMany body n t k else none with
    | some a => some a
    | none => k s

/-- The first way to match at `s` that `k` accepts. -/
def run {α : Type} : Pattern → Cursor → (Cursor → Option α) → Option α
  | one accepts, s, k =>
    match s.rest with
    | [] => none
    | c :: cs => if accepts c then k (s.step c cs) else none
  | nothing, s, k => k s
  | next p q, s, k => p.run s fun t => q.run t k
  | either p q, s, k =>
    match p.run s k with
    | some a => some a
    | none => q.run s k
  | many p, s, k => runMany p.run s.rest.length s k
  | named p, s, k => p.run s fun t => k ⟨t.before, t.offset, t.rest, some (s.offset, t.offset)⟩
  | wordEdge, s, k => if s.before.any Text.isIdentChar then none else k s
  | atStart, s, k => if s.before.isNone then k s else none
  | atEnd, s, k => if s.rest.isEmpty then k s else none
  | atLastBreak, s, k => if s.rest = [] ∨ s.rest = ['\n'] then k s else none

/-- Where a match lies, and where its named part lies. -/
structure Match where
  start : Nat
  stop : Nat
  name : Option (Nat × Nat)
  deriving Repr, DecidableEq

def matchAt (p : Pattern) (before : Option Char) (offset : Nat) (rest : List Char) : Option Match :=
  p.run ⟨before, offset, rest, none⟩ fun t => some ⟨offset, t.offset, t.name⟩

def searchFrom (p : Pattern) (before : Option Char) (offset : Nat) : List Char → Option Match
  | [] => p.matchAt before offset []
  | c :: cs =>
    match p.matchAt before offset (c :: cs) with
    | some m => some m
    | none => p.searchFrom (some c) (offset + 1) cs

/-- The match that starts first. -/
def search (p : Pattern) (text : List Char) : Option Match := p.searchFrom none 0 text

/-- Matches from left to right, after passing over `skip` characters; none begins inside the one
before it. -/
def occurrencesFrom (p : Pattern) (skip : Nat) (before : Option Char) (offset : Nat) :
    List Char → List Match
  | [] => []
  | c :: cs =>
    match skip with
    | n + 1 => p.occurrencesFrom n (some c) (offset + 1) cs
    | 0 =>
      match p.matchAt before offset (c :: cs) with
      | some m => m :: p.occurrencesFrom (m.stop - offset - 1) (some c) (offset + 1) cs
      | none => p.occurrencesFrom 0 (some c) (offset + 1) cs

/-- All matches of a pattern that matches no empty text, from left to right without overlap. -/
def occurrences (p : Pattern) (text : List Char) : List Match := p.occurrencesFrom 0 none 0 text

def char (c : Char) : Pattern := one (· == c)

def text : List Char → Pattern
  | [] => nothing
  | [c] => char c
  | c :: cs => next (char c) (text cs)

def word (s : String) : Pattern := text s.toList

def all : List Pattern → Pattern
  | [] => nothing
  | [p] => p
  | p :: ps => next p (all ps)

def oneOf : List Pattern → Pattern
  | [] => one fun _ => false
  | [p] => p
  | p :: ps => either p (oneOf ps)

def optional (p : Pattern) : Pattern := either p nothing

def many1 (p : Pattern) : Pattern := next p (many p)

def noneOf (cs : List Char) : Pattern := one fun c => !cs.contains c

def blanks : Pattern := many (one Text.isBlank)

def blanks1 : Pattern := many1 (one Text.isBlank)

/-- Any characters up to the line feed. -/
def restOfLine : Pattern := many (one (· != '\n'))

def identifier : Pattern := all [wordEdge, one Text.isIdentStart, many (one Text.isIdentChar)]

def contains (text part : List Char) : Bool :=
  part.isPrefixOf text ||
    match text with
    | [] => false
    | _ :: cs => contains cs part

end Pattern

namespace Keyword

def control : List String :=
  ["if", "else", "for", "while", "do", "switch", "case", "break", "continue", "return", "throw",
   "try", "catch", "finally"]

def declaration : List String :=
  ["new", "delete", "typeof", "instanceof", "in", "of", "void", "this", "class", "extends",
   "super", "import", "export", "from", "as", "default", "function", "const", "let", "var",
   "async", "await", "yield", "static", "get", "set", "constructor"]

/-- Names that the language's environment supplies. -/
def ambient : List String :=
  ["console", "window", "document", "parseInt", "parseFloat", "isNaN", "Array", "Object", "String",
   "Number", "Boolean", "Error", "RegExp", "Math", "Date", "JSON", "Promise", "Map", "Set",
   "WeakMap", "WeakSet", "Symbol", "BigInt", "Proxy", "Reflect", "DataView", "ArrayBuffer",
   "TypedArray", "require", "exports", "module", "process", "global", "setInterval", "setTimeout",
   "clearInterval", "clearTimeout"]

def ignored : List String := control ++ declaration ++ ambient

end Keyword

end Callees

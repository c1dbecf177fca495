import Callees.Block
import Callees.Document
import Callees.Failure
import Callees.Lookup
import Callees.Pattern
import Callees.Symbol

namespace Callees

inductive Origin
  | index
  | local_
  deriving Repr, DecidableEq

namespace Origin

def name : Origin → String
  | index => "index"
  | local_ => "local"

def ofName? (s : String) : Option Origin := [index, local_].find? (·.name = s)

end Origin

structure Definition where
  name : String
  sourceUri : String
  range : Range
  content : String
  startLine : Int
  endLine : Int
  origin : Origin
  deriving Repr, DecidableEq

namespace Definition
open Pattern

/-- Shapes of a definition of `name` in a text, most telling first. -/
def shapes (name : List Char) : List Pattern :=
  let this := next wordEdge (text name)
  [ -- a function declaration
    all [word "function", blanks, optional (char '*'), blanks, this, blanks, char '('],
    -- an arrow assigned to the name
    all [oneOf [word "const", word "let", word "var"], blanks1, this, blanks, char '=', restOfLine,
      word "=>"],
    -- a method with a body
    all [this, blanks, char '(', restOfLine, char ')', blanks, char '\x7b'],
    -- a method with a type
    all [this, blanks, char '(', restOfLine, char ')', blanks, char ':', blanks]]

/-- Callable symbols only, those of exactly this name first. -/
def candidates (name : String) (symbols : List SymbolInfo) : List SymbolInfo :=
  let callable := symbols.filter (·.kind.isCallable)
  callable.filter (·.name == name) ++ callable.filter (·.name != name)

/-- The definition that a symbol of the index stands for: the block that opens at it or after it, or
the symbol's own text where there is none. -/
def ofSymbol (name : String) (symbol : SymbolInfo) (d : Document) : Option Definition :=
  let (content, endLine) := match Block.body? d.lineTexts symbol.range.start.line with
    | some body => (body.content, body.endLine)
    | none => (d.textIn symbol.range, symbol.range.stop.line)
  if content = "" then none
  else some ⟨name, d.uri, symbol.range, content, symbol.range.start.line, endLine, .index⟩

/-- The definition whose shape was matched at an offset, if a block follows on that line or below. -/
def ofOffset (name : String) (d : Document) (start : Nat) : Except Failure (Option Definition) :=
  let p := d.positionAt start
  match Block.body? d.lineTexts p.line with
  | none => .ok none
  | some body =>
    let stop : Position := ⟨body.endLine, ((d.lineTexts[body.endLine]?).map List.length).getD 0⟩
    (Range.between p stop).map fun range =>
      some ⟨name, d.uri, range, body.content, p.line, body.endLine, .local_⟩

def firstOffset (name : String) (d : Document) : List Nat → Except Failure (Option Definition)
  | [] => .ok none
  | start :: rest => do
    match ← ofOffset name d start with
    | some found => .ok (some found)
    | none => firstOffset name d rest

/-- Matches in the order of the shapes, and of each shape from left to right. -/
def localOffsets (name : String) (d : Document) : List Nat :=
  (shapes name.toList).flatMap fun shape => (shape.occurrences d.chars).map Match.start

def inText (name : String) (d : Document) : Except Failure (Option Definition) :=
  firstOffset name d (localOffsets name d)

end Definition

/-- How definitions are found: how documents are opened, and the symbol index if there is one. -/
structure Resolver (σ : Type) where
  openDocument : String → Lookup σ Document
  symbols : Option (String → Lookup σ (List SymbolInfo))

namespace Resolver

variable {σ : Type}

def inIndex (r : Resolver σ) (symbols : String → Lookup σ (List SymbolInfo)) (name : String) :
    Lookup σ (Option Definition) := do
  match Definition.candidates name (← symbols name) with
  | [] => pure none
  | symbol :: _ =>
    let d ← r.openDocument symbol.uri
    pure (Definition.ofSymbol name symbol d)

def indexTier (r : Resolver σ) (symbols : String → Lookup σ (List SymbolInfo)) :
    Tier σ (String × Document) Definition :=
  ⟨"index", true, fun (name, _) => r.inIndex symbols name⟩

def localTier : Tier σ (String × Document) Definition :=
  ⟨"local", false, fun (name, d) => Lookup.ofResult (Definition.inText name d)⟩

def tiers (r : Resolver σ) : List (Tier σ (String × Document) Definition) :=
  r.symbols.toList.map r.indexTier ++ [localTier]

/-- The definition of a name called from a document. An empty name has none. -/
def resolve (r : Resolver σ) (name : String) (from_ : Document) : Lookup σ (Option Definition) :=
  if name = "" then pure none
  else Tier.firstHit "definition" r.tiers (name, from_)

end Resolver

namespace Hover

/-- Shorter words are not worth a look. -/
def minWord : Nat := 2

/-- The name at `p`, if a parenthesis follows it at once. -/
def callName? (d : Document) (p : Position) : Option String := do
  let range ← d.wordAt? p
  let word := d.charsIn range
  let here ← d.lineTexts[range.stop.line]?
  if word.length < minWord then none
  else if here[range.stop.character]? = some '(' then some (String.ofList word)
  else none

/-- The definition of that name, by whatever way definitions are found. -/
def definition {σ : Type} (resolve : String → Document → Lookup σ (Option Definition))
    (d : Document) (p : Position) : Lookup σ (Option Definition) :=
  match callName? d p with
  | none => pure none
  | some name => resolve name d

end Hover

end Callees

import Callees.Position

namespace Callees

inductive SymbolKind
  | file
  | module
  | class_
  | interface
  | method
  | constructor
  | function
  | property
  | field
  | variable_
  | object
  deriving Repr, DecidableEq

namespace SymbolKind

def name : SymbolKind → String
  | file => "file"
  | module => "module"
  | class_ => "class"
  | interface => "interface"
  | method => "method"
  | constructor => "constructor"
  | function => "function"
  | property => "property"
  | field => "field"
  | variable_ => "variable"
  | object => "object"

def all : List SymbolKind :=
  [file, module, class_, interface, method, constructor, function, property, field, variable_,
   object]

def ofName? (s : String) : Option SymbolKind := all.find? (·.name = s)

/-- Kinds that a cursor can be inside of. -/
def isFunctionLike : SymbolKind → Bool
  | function | method | constructor => true
  | _ => false

/-- Kinds that a call can be a call of. A constructor is called by its class's name. -/
def isCallable : SymbolKind → Bool
  | function | method => true
  | _ => false

end SymbolKind

/-- A node of an outline. -/
inductive Outline
  | node (name : String) (kind : SymbolKind) (range : Range) (children : List Outline)
  deriving Repr

namespace Outline

def name : Outline → String
  | node name .. => name

def kind : Outline → SymbolKind
  | node _ kind .. => kind

def range : Outline → Range
  | node _ _ range _ => range

def children : Outline → List Outline
  | node _ _ _ children => children

def isFunctionLike (o : Outline) : Bool := o.kind.isFunctionLike

end Outline

/-- A symbol together with the document that it is in, and the symbol right around it. -/
structure SymbolInfo where
  name : String
  kind : SymbolKind
  uri : String
  range : Range
  container : Option String
  deriving Repr, DecidableEq

namespace Outline

mutual

/-- Every symbol of an outline, parents before their children. -/
def flattenNode (uri : String) (container : Option String) : Outline → List SymbolInfo
  | node name kind range children =>
    ⟨name, kind, uri, range, container⟩ :: flattenAll uri (some name) children

def flattenAll (uri : String) (container : Option String) : List Outline → List SymbolInfo
  | [] => []
  | o :: os => flattenNode uri container o ++ flattenAll uri container os

end

def flatten (uri : String) (os : List Outline) : List SymbolInfo := flattenAll uri none os

mutual

/-- The tightest function-like symbol so far. Children count only where their parent contains the
position, function-like or not. -/
def tightestIn (p : Position) (best : Option Outline) : Outline → Option Outline
  | node name kind range children =>
    if range.contains p then
      let better := kind.isFunctionLike && best.all fun b => range.smallerThan b.range
      tightestAmong p (if better then some (node name kind range children) else best) children
    else best

def tightestAmong (p : Position) (best : Option Outline) : List Outline → Option Outline
  | [] => best
  | o :: os => tightestAmong p (tightestIn p best o) os

end

/-- The function-like symbol around `p` whose range is smallest, the first of several. -/
def tightest? (p : Position) (os : List Outline) : Option Outline := tightestAmong p none os

end Outline

def insertName (name : String) : List String → List String
  | [] => [name]
  | n :: ns =>
    if name < n then name :: n :: ns else if n = name then n :: ns else n :: insertName name ns

/-- Every name once, in order. -/
def nameSet (names : List String) : List String := names.foldr insertName []

end Callees

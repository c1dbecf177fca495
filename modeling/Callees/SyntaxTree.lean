import Callees.Document
import Callees.Failure
import Callees.Language
import Callees.Lookup
import Callees.Symbol
import Callees.Text.Classes
import Callees.Text.Utf8
import Callees.Uri

namespace Callees

/-- Rows count line feeds, columns count bytes. -/
structure Point where
  row : Nat
  column : Nat
  deriving Repr, DecidableEq

/-- A node, with the part of the source that is its text, if it has any, and the name of the place
that it takes in its parent. -/
inductive SyntaxTree
  | node (kind : String) (start stop : Point) (bytes : Option (Nat × Nat)) (field : Option String)
      (children : List SyntaxTree)
  deriving Repr

namespace SyntaxTree

def kind : SyntaxTree → String
  | node kind .. => kind

def start : SyntaxTree → Point
  | node _ start .. => start

def stop : SyntaxTree → Point
  | node _ _ stop .. => stop

def bytes : SyntaxTree → Option (Nat × Nat)
  | node _ _ _ bytes .. => bytes

def field : SyntaxTree → Option String
  | node _ _ _ _ field _ => field

def children : SyntaxTree → List SyntaxTree
  | node _ _ _ _ _ children => children

/-- What an empty document parses to. -/
def empty : SyntaxTree := node "program" ⟨0, 0⟩ ⟨0, 0⟩ (some (0, 0)) none []

def child? (t : SyntaxTree) (field : String) : Option SyntaxTree :=
  t.children.find? (·.field == some field)

end SyntaxTree

/-- The bytes of a document, and the same split at line feeds. -/
structure Source where
  bytes : List UInt8
  rows : List (List UInt8)

namespace Source

def splitRows : List UInt8 → List (List UInt8)
  | [] => [[]]
  | b :: bs =>
    if b = 10 then [] :: splitRows bs
    else match splitRows bs with
      | [] => [[b]]
      | row :: rows => (b :: row) :: rows

def ofChars (cs : List Char) : Source :=
  let bytes := Text.encode cs
  ⟨bytes, splitRows bytes⟩

/-- The character column of a byte column. A row that does not exist keeps its column. -/
def column (s : Source) (p : Point) : Nat :=
  match s.rows[p.row]? with
  | some row => (Text.decode (row.take p.column)).length
  | none => p.column

def position (s : Source) (p : Point) : Position := ⟨p.row, s.column p⟩

def range (s : Source) (t : SyntaxTree) : Except Failure Range :=
  Range.between (s.position t.start) (s.position t.stop)

/-- The text of a node without the blanks around it. -/
def text (s : Source) (t : Option SyntaxTree) : List Char :=
  match t.bind SyntaxTree.bytes with
  | some (a, b) => Text.trim Text.isBlank (Text.decode ((s.bytes.take b).drop a))
  | none => []

end Source

namespace SyntaxTree

def isFunctionValue (t : SyntaxTree) : Bool :=
  ["arrow_function", "function", "function_expression", "generator_function"].contains t.kind

/-- The name of a property, without the quotes that it may be written in. -/
def propertyName (s : Source) (t : Option SyntaxTree) : List Char :=
  let name := s.text t
  if t.any (·.kind == "string") then
    Text.trim (fun c => c == '\'' || c == '"' || c == '\x60') name
  else name

/-- The last name of an assignment's target, as `c` of `a.b.c`. -/
def assignedName (s : Source) (left : Option SyntaxTree) : List Char :=
  match left with
  | none => []
  | some t =>
    if t.kind = "member_expression" then s.text (t.child? "property")
    else if t.kind = "identifier" then s.text (some t)
    else []

/-- Whether a named field of the node is a function. -/
def holdsFunction (t : SyntaxTree) (field : String) : Bool :=
  (t.child? field).any isFunctionValue

/-- Which symbol a node is, if it is one and has a name. -/
def symbol? (s : Source) (t : SyntaxTree) : Option (SymbolKind × List Char) :=
  let name := s.text (t.child? "name")
  match t.kind with
  | "function_declaration" | "generator_function_declaration" | "function_signature" =>
    some (.function, name)
  | "class_declaration" | "abstract_class_declaration" | "class" => some (.class_, name)
  | "interface_declaration" => some (.interface, name)
  | "method_definition" =>
    let name := propertyName s (t.child? "name")
    some (if name = "constructor".toList then .constructor else .method, name)
  | "method_signature" | "abstract_method_signature" =>
    some (.method, propertyName s (t.child? "name"))
  | "variable_declarator" =>
    if t.holdsFunction "value" then some (.function, name)
    else if (t.child? "value").any fun v => v.kind == "object" || v.kind == "class" then
      some (.variable_, name)
    else none
  | "pair" =>
    if t.holdsFunction "value" then some (.method, propertyName s (t.child? "key")) else none
  | "field_definition" | "public_field_definition" =>
    if t.holdsFunction "value" then
      some (.method, propertyName s ((t.child? "property").or (t.child? "name")))
    else none
  | "assignment_expression" =>
    if t.holdsFunction "right" then some (.function, assignedName s (t.child? "left")) else none
  | _ => none

/-- Only a symbol with a name is shown. -/
def named? (s : Source) (t : SyntaxTree) : Option (SymbolKind × List Char) :=
  (symbol? s t).filter fun symbol => !symbol.2.isEmpty

mutual

/-- A node that is a symbol holds the symbols below it; any other node passes them on. -/
def outlineNode (s : Source) : SyntaxTree → Except Failure (List Outline)
  | node kind start stop bytes field children => do
    let t := node kind start stop bytes field children
    match named? s t with
    | none => outlineAll s children
    | some (symbolKind, name) =>
      let range ← s.range t
      let below ← outlineAll s children
      .ok [.node (String.ofList name) symbolKind range below]

def outlineAll (s : Source) : List SyntaxTree → Except Failure (List Outline)
  | [] => .ok []
  | t :: ts => do
    let first ← outlineNode s t
    let rest ← outlineAll s ts
    .ok (first ++ rest)

end

/-- The symbols below the root of a document's tree. -/
def outline (text : List Char) (root : SyntaxTree) : Except Failure (List Outline) :=
  outlineAll (Source.ofChars text) root.children

end SyntaxTree


/-- A parser is total: any text has a tree. -/
abbrev Parse := Grammar → String → SyntaxTree

/-- The grammar by the document's language, or else by its name. -/
def Grammar.ofDocument? (d : Document) : Option Grammar :=
  match d.languageId.bind fun id => ofLanguage.lookup id with
  | some g => some g
  | none => (Uri.toPath d.uri).toOption.bind ofPath?

namespace Outline

def ofText (parse : Parse) (g : Grammar) (text : String) : Except Failure (List Outline) :=
  SyntaxTree.outline text.toList (parse g text)

def ofNamedGrammar (parse : Parse) (grammar text : String) : Except Failure (List Outline) :=
  match Grammar.ofName? grammar with
  | some g => ofText parse g text
  | none => .error (.noGrammar grammar)

variable {σ : Type}
open Lookup

def provider (parse : Parse) (d : Document) : Lookup σ (List Outline) := do
  match Grammar.ofDocument? d with
  | none => fail (.unsupportedLanguage d.uri)
  | some g =>
    let symbols ← ofResult (ofText parse g d.text)
    note (.outlineExtracted d.uri symbols.length)
    pure symbols

end Outline

end Callees

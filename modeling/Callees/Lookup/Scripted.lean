import Callees.Definition
import Callees.Document
import Callees.Pattern
import Callees.Scope
import Callees.SyntaxTree

namespace Callees.Scripted

inductive OutlineReply
  | symbols (os : List Outline)
  | failure (f : Failure)
  /-- The outline of the document's own syntax tree. -/
  | parsed

/-- Which symbols of a reply belong to a query. -/
inductive Selection
  | all
  | exact
  | containing
  deriving Repr, DecidableEq

inductive IndexReply
  | symbols (infos : List SymbolInfo) (selection : Selection)
  | failure (f : Failure)

/-- How many questions there were so far: for outlines, and for each name. -/
structure Asked where
  outlines : Nat
  names : List (String × Nat)

def Asked.nothing : Asked := ⟨0, []⟩

def reply? {α : Type} (script : List α) (n : Nat) : Option α := script[min n (script.length - 1)]?

def askOutline (asked : Asked) : Nat × Asked := (asked.outlines, ⟨asked.outlines + 1, asked.names⟩)

def askName (name : String) (asked : Asked) : Nat × Asked :=
  let n := (asked.names.lookup name).getD 0
  (n, ⟨asked.outlines, (name, n + 1) :: asked.names.filter (·.1 != name)⟩)

open Lookup

def next {α : Type} (f : Asked → α × Asked) : Lookup Asked α :=
  host fun asked => ((Except.ok (f asked).1), (f asked).2)

def outline (parse : Parse) (script : List OutlineReply) (d : Document) :
    Lookup Asked (List Outline) := do
  match reply? script (← next askOutline) with
  | some (.symbols os) => pure os
  | some (.failure f) => fail f
  | some .parsed => Outline.provider parse d
  | none => pure []

def select (name : String) (infos : List SymbolInfo) : Selection → List SymbolInfo
  | .all => infos
  | .exact => infos.filter (·.name == name)
  | .containing => infos.filter fun s => Pattern.contains s.name.toList name.toList

/-- `script` says what there is to reply to each name. -/
def symbols (script : String → List IndexReply) (name : String) :
    Lookup Asked (List SymbolInfo) := do
  match reply? (script name) (← next (askName name)) with
  | some (.symbols infos selection) => pure (select name infos selection)
  | some (.failure f) => fail f
  | none => pure []

def openFrom (shelf : Shelf) (uri : String) : Lookup Asked Document := ofResult (shelf.open_ uri)

end Callees.Scripted

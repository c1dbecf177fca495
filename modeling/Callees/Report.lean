import Callees.CallSite
import Callees.Data
import Callees.Definition
import Callees.Scope

namespace Callees

structure Report where
  uri : String
  position : Position
  scope : Option Scope
  callSites : List CallSite
  definitions : List Definition
  deriving Repr, DecidableEq

namespace Report

def noScope : String := "Move cursor inside a function to see its callees here."
def noCalls : String := "No resolvable function calls found in this scope."
def noDefinitions : String := "No definitions could be resolved for calls in this scope."

def isEmpty (r : Report) : Bool := r.definitions.isEmpty

/-- What to tell when there is nothing to show. -/
def message? (r : Report) : Option String :=
  if r.scope.isNone then some noScope
  else if r.callSites.isEmpty then some noCalls
  else if r.definitions.isEmpty then some noDefinitions
  else none

end Report

def Position.toData (p : Position) : Data :=
  .record [("line", .ofNat p.line), ("character", .ofNat p.character)]

def Range.toData (r : Range) : Data :=
  .record [("start", r.start.toData), ("end", r.stop.toData)]

def Scope.toData (s : Scope) : Data :=
  .record [("range", s.range.toData), ("name", .text s.name)]

def CallSite.toData (c : CallSite) : Data :=
  .record [("name", .text c.name), ("range", c.range.toData), ("line", .int c.line),
    ("character", .int c.character)]

def Definition.toData (d : Definition) : Data :=
  .record [("name", .text d.name), ("source_uri", .text d.sourceUri), ("range", d.range.toData),
    ("content", .text d.content), ("start_line", .int d.startLine), ("end_line", .int d.endLine),
    ("strategy", .text d.origin.name)]

def Report.toData (r : Report) : Data :=
  .record [("uri", .text r.uri), ("position", r.position.toData),
    ("scope", .ofOption Scope.toData r.scope),
    ("call_sites", .list (r.callSites.map CallSite.toData)),
    ("definitions", .list (r.definitions.map Definition.toData))]

def SymbolInfo.toData (s : SymbolInfo) : Data :=
  .record [("name", .text s.name), ("kind", .text s.kind.name),
    ("location", .record [("uri", .text s.uri), ("range", s.range.toData)]),
    ("container_name", .ofOption .text s.container)]

mutual

def Outline.toData : Outline → Data
  | .node name kind range children =>
    .record [("name", .text name), ("kind", .text kind.name), ("range", range.toData),
      ("children", .list (Outline.listToData children))]

def Outline.listToData : List Outline → List Data
  | [] => []
  | o :: os => o.toData :: Outline.listToData os

end

end Callees

import Callees.Data.Reader
import Callees.Report

namespace Callees

open Reader Checked

def Position.read : Reader Position := fun d => do
  let fs ← fields d
  let (line, character) ← both (required "line" (atLeast 0) fs) (required "character" (atLeast 0) fs)
  .ok ⟨line.toNat, character.toNat⟩

def Range.read : Reader Range := fun d => do
  let fs ← fields d
  let (start, stop) ← both (required "start" Position.read fs) (required "end" Position.read fs)
  match Range.between? start stop with
  | some r => .ok r
  | none => one (.broken (.rangeOrder start stop))

def Scope.read : Reader Scope := fun d => do
  let fs ← fields d
  let (range, name) ← both (required "range" Range.read fs) (required "name" text fs)
  .ok ⟨range, name⟩

def CallSite.read : Reader CallSite := fun d => do
  let fs ← fields d
  let (name, range, line, character) ←
    both (required "name" identifier fs) (both (required "range" Range.read fs)
      (both (required "line" int fs) (required "character" int fs)))
  .ok ⟨name, range, line, character⟩

def Definition.read : Reader Definition := fun d => do
  let fs ← fields d
  let (name, uri, range, content, startLine, endLine, origin) ←
    both (required "name" text fs) (both (required "source_uri" text fs)
      (both (required "range" Range.read fs) (both (required "content" nonemptyText fs)
        (both (required "start_line" int fs) (both (required "end_line" int fs)
          (optional "strategy" .local_ (word Origin.ofName?) fs))))))
  .ok ⟨name, uri, range, content, startLine, endLine, origin⟩

def Report.read : Reader Report := fun d => do
  let fs ← fields d
  let (uri, position, scope, callSites, definitions) ←
    both (required "uri" text fs) (both (required "position" Position.read fs)
      (both (optional "scope" none (nullable Scope.read) fs)
        (both (optional "call_sites" [] (sequence CallSite.read) fs)
          (optional "definitions" [] (sequence Definition.read) fs))))
  .ok ⟨uri, position, scope, callSites, definitions⟩

/-- A document's name and a span of it. -/
def Location.read : Reader (String × Range) := fun d => do
  let fs ← fields d
  both (required "uri" text fs) (required "range" Range.read fs)

def SymbolInfo.read : Reader SymbolInfo := fun d => do
  let fs ← fields d
  let (name, kind, (uri, range), container) ←
    both (required "name" text fs) (both (required "kind" (word SymbolKind.ofName?) fs)
      (both (required "location" Location.read fs)
        (optional "container_name" none (nullable text) fs)))
  .ok ⟨name, kind, uri, range, container⟩

mutual

def Outline.read : Reader Outline
  | .record fs => do
    let (name, kind, range, children) ←
      both (required "name" text fs) (both (required "kind" (word SymbolKind.ofName?) fs)
        (both (required "range" Range.read fs) (Outline.readChildren fs)))
    .ok (.node name kind range children)
  | _ => one .notRecord

/-- The field of the children, which may be left out. -/
def Outline.readChildren : List (String × Data) → Checked (List Outline)
  | [] => .ok []
  | (name, d) :: fs =>
    if name = "children" then within (.field "children") (Outline.readSequence d)
    else Outline.readChildren fs

def Outline.readSequence : Data → Checked (List Outline)
  | .list ds => Outline.readItems 0 ds
  | _ => one .notSequence

def Outline.readItems (i : Nat) : List Data → Checked (List Outline)
  | [] => .ok []
  | d :: ds =>
    (both (within (.item i) (Outline.read d)) (Outline.readItems (i + 1) ds)).map fun (o, os) =>
      o :: os

end

end Callees

import Callees.Report

namespace Callees

structure Pipeline (σ : Type) where
  locator : Locator σ
  resolve : String → Document → Lookup σ (Option Definition)
  maxWorkers : Int
  ignoredNames : List String

namespace Pipeline

variable {σ : Type}
open Lookup

def locate (p : Pipeline σ) (d : Document) (at_ : Position) : Lookup σ (Option Scope) :=
  p.locator.locate d at_

def skipped (p : Pipeline σ) : List String := Keyword.ignored ++ p.ignoredNames

/-- The first call of each name in the scope. Calls of the scope itself do not count. -/
def callSites (p : Pipeline σ) (d : Document) (scope : Scope) : List CallSite :=
  CallSite.firstOfEach (CallSite.inDocument d (some scope.range) (scope.name :: p.skipped))

/-- A name whose lookup fails has no definition, and does not disturb the others. -/
def resolveOne (p : Pipeline σ) (d : Document) (name : String) : Lookup σ (Option Definition) := do
  match ← attempt (p.resolve name d) with
  | .ok found => pure found
  | .error f =>
    note (.lookupFailed name d.uri f)
    pure none

def resolveEach (p : Pipeline σ) (d : Document) : List String → Lookup σ (List Definition)
  | [] => pure []
  | name :: names => do
    let found ← p.resolveOne d name
    let rest ← p.resolveEach d names
    pure (found.toList ++ rest)

/-- The definitions of the names that have one, in the order of the names. -/
def resolveAll (p : Pipeline σ) (d : Document) (names : List String) :
    Lookup σ (List Definition) :=
  if names.isEmpty then pure []
  else if p.maxWorkers < 1 then fail .noWorkers
  else p.resolveEach d names

def run (p : Pipeline σ) (d : Document) (at_ : Position) : Lookup σ Report := do
  match ← p.locate d at_ with
  | none => pure ⟨d.uri, at_, none, [], []⟩
  | some scope =>
    let calls := p.callSites d scope
    let definitions ← p.resolveAll d (calls.map CallSite.name)
    note (.reportComputed d.uri scope.name calls.length definitions.length)
    pure ⟨d.uri, at_, some scope, calls, definitions⟩

end Pipeline

end Callees

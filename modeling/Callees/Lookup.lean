import Callees.Data
import Callees.Failure

namespace Callees

/-- What happened, in the order in which it did. -/
inductive Event
  | tierUnavailable (strategy tier : String) (error : Failure)
  | tierHit (strategy tier : String)
  | tierMiss (strategy tier : String)
  | outlineExtracted (uri : String) (symbols : Nat)
  | indexBuilt (root : String) (files names : Nat)
  | lookupFailed (name uri : String) (error : Failure)
  | reportComputed (uri scope : String) (calls resolved : Nat)
  | scopeUnchanged (uri scope : String)
  | staleDropped (uri : String) (ticket : Nat)
  deriving Repr, DecidableEq

inductive Severity
  | debug
  | info
  | warning
  | error
  deriving Repr, DecidableEq

namespace Severity

def name : Severity → String
  | debug => "debug"
  | info => "info"
  | warning => "warning"
  | error => "error"

/-- The name in capitals. -/
def title (s : Severity) : String := String.ofList (s.name.toList.map Char.toUpper)

/-- Severities in ascending order. -/
def rank : Severity → Nat
  | debug => 10
  | info => 20
  | warning => 30
  | error => 40

/-- Capital form of a letter as far as it is one of ASCII: the dotless `ı` has the capital `I`. -/
def capital (c : Char) : Char := if c = 'ı' then 'I' else c.toUpper

/-- The case of letters does not count. -/
def ofName? (s : String) : Option Severity :=
  [debug, info, warning, error].find? fun v => v.title.toList = s.toList.map capital

end Severity

namespace Event

def name : Event → String
  | tierUnavailable .. => "tier_unavailable"
  | tierHit .. => "tier_hit"
  | tierMiss .. => "tier_miss"
  | outlineExtracted .. => "outline_extracted"
  | indexBuilt .. => "workspace_index_built"
  | lookupFailed .. => "definition_lookup_failed"
  | reportComputed .. => "pipeline_run"
  | scopeUnchanged .. => "scope_unchanged"
  | staleDropped .. => "stale_report_dropped"

/-- Only a lookup that fails altogether is worth a warning. -/
def severity : Event → Severity
  | lookupFailed .. => .warning
  | _ => .debug

def fields : Event → List (String × Data)
  | tierUnavailable strategy tier error =>
    [("strategy", .text strategy), ("tier", .text tier), ("error", .text error.summary)]
  | tierHit strategy tier | tierMiss strategy tier =>
    [("strategy", .text strategy), ("tier", .text tier)]
  | outlineExtracted uri symbols => [("uri", .text uri), ("symbols", .ofNat symbols)]
  | indexBuilt root files names =>
    [("root", .text root), ("files", .ofNat files), ("names", .ofNat names)]
  | lookupFailed name uri error =>
    [("name", .text name), ("uri", .text uri), ("error", .text error.summary)]
  | reportComputed uri scope calls resolved =>
    [("uri", .text uri), ("scope", .text scope), ("calls", .ofNat calls),
      ("resolved", .ofNat resolved)]
  | scopeUnchanged uri scope => [("uri", .text uri), ("scope", .text scope)]
  | staleDropped uri ticket => [("uri", .text uri), ("ticket", .ofNat ticket)]

end Event

/-- The host's state, and the events so far. -/
structure Session (σ : Type) where
  host : σ
  log : List Event

abbrev Lookup (σ : Type) := ExceptT Failure (StateM (Session σ))

namespace Lookup

variable {σ α β : Type}

def note (e : Event) : Lookup σ Unit :=
  modify fun s => ⟨s.host, s.log ++ [e]⟩

def fail (f : Failure) : Lookup σ α := throw f

/-- The outcome of a lookup as a value; from here on nothing has failed. -/
def attempt (m : Lookup σ α) : Lookup σ (Except Failure α) :=
  ExceptT.mk do
    let outcome ← m.run
    pure (.ok outcome)

def ofResult : Except Failure α → Lookup σ α
  | .ok a => pure a
  | .error f => fail f

/-- A step of the host alone. -/
def host (f : σ → Except Failure α × σ) : Lookup σ α :=
  ExceptT.mk fun s =>
    let (outcome, host) := f s.host
    (outcome, ⟨host, s.log⟩)

end Lookup

/-- One way to look something up. A guarded tier asks a collaborator that may fail, and its failure
counts as a miss. -/
structure Tier (σ α β : Type) where
  name : String
  guarded : Bool
  lookup : α → Lookup σ (Option β)

namespace Tier

variable {σ α β : Type}
open Lookup

/-- Asks the tiers in order and takes the first answer. -/
def firstHit (strategy : String) (tiers : List (Tier σ α β)) (x : α) : Lookup σ (Option β) :=
  match tiers with
  | [] => pure none
  | tier :: rest => do
    match ← attempt (tier.lookup x) with
    | .ok (some b) =>
      note (.tierHit strategy tier.name)
      pure (some b)
    | .ok none =>
      note (.tierMiss strategy tier.name)
      firstHit strategy rest x
    | .error f =>
      if tier.guarded then
        note (.tierUnavailable strategy tier.name f)
        firstHit strategy rest x
      else fail f

end Tier

end Callees

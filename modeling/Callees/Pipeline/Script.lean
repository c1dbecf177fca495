import Callees.Pipeline.Update

namespace Callees

inductive CursorEvent
  | run (d : Document) (at_ : Position)
  | locate (d : Document) (at_ : Position)
  | callSites (d : Document) (scope : Scope)
  | resolveAll (d : Document) (names : List String)
  | reset
  | update (d : Document) (at_ : Position) (before during : List CursorEvent)
  /-- An event that does not make sense in itself. -/
  | senseless (f : Failure)

/-- What came of an event. -/
inductive Reaction
  | report (r : Report)
  | scope (s : Option Scope)
  | callSites (calls : List CallSite)
  | definitions (found : List Definition)
  | done
  | failed (f : Failure)
  | updated (before : List Reaction) (during : Option (List Reaction)) (outcome : Update.Outcome)
      (tickets : Tickets)

namespace Pipeline

variable {σ : Type}

def react {α : Type} (f : α → Reaction) : Except Failure α → Reaction
  | .ok a => f a
  | .error failure => .failed failure

mutual

/-- An update that fails ends the script that it stands in; the failure of any other event is what comes
of that event. -/
def perform (p : Pipeline σ) : CursorEvent → AtDesk σ (Except Failure Reaction)
  | .run d at_ => do pure (.ok (react .report (← AtDesk.lookup (p.run d at_))))
  | .locate d at_ => do pure (.ok (react .scope (← AtDesk.lookup (p.locate d at_))))
  | .callSites d scope => pure (.ok (.callSites (p.callSites d scope)))
  | .resolveAll d names => do
    pure (.ok (react .definitions (← AtDesk.lookup (p.resolveAll d names))))
  | .reset => do
    Update.forget
    pure (.ok .done)
  | .senseless f => pure (.ok (.failed f))
  | .update d at_ before during =>
    (p.update (fun _ => pure ()) (performAll p before) (performAll p during) d at_).andThen
      fun (first, second, outcome) => do
        let tickets ← AtDesk.tickets fun t => (t, t)
        pure (.ok (.updated first second outcome tickets))

def performAll (p : Pipeline σ) : List CursorEvent → AtDesk σ (Except Failure (List Reaction))
  | [] => pure (.ok [])
  | e :: es =>
    (perform p e).andThen fun first => (performAll p es).andThen fun rest => pure (.ok (first :: rest))

end

end Pipeline

end Callees

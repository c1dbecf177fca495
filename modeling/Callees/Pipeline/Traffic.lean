import Callees.Pipeline.Update

namespace Callees

/-- How far an event has come. -/
inductive Update.Stage
  | entered
  | accepted
  | computed (report : Report)
  | ended (outcome : Except Failure Update.Outcome)

/-- An event on its way. `found` is what it located, once it has. -/
structure Update (σ : Type) where
  document : Document
  position : Position
  receive : Report → Lookup σ Unit
  ticket : Nat
  found : Option Scope.Identity
  stage : Update.Stage

/-- A report that was given out; `received` unless its receiver failed. -/
structure Publication where
  ticket : Nat
  document : Document
  report : Report
  received : Bool

namespace Publication

/-- What an observer takes the report to be about. -/
def identity (b : Publication) : Option Scope.Identity :=
  b.report.scope.map (Scope.identity b.document)

end Publication

namespace Update

variable {σ : Type}

/-- The next step of an event. One that has ended takes none. -/
def advance (p : Pipeline σ) (u : Update σ) : AtDesk σ (Update σ) :=
  match u.stage with
  | .entered => do
    match ← p.check u.document u.position u.ticket with
    | .error f => pure { u with stage := .ended (.error f) }
    | .ok (scope, goesOn) =>
      pure { u with
        found := scope.map (Scope.identity u.document)
        stage := if goesOn then .accepted else .ended (.ok .unchanged) }
  | .accepted => do
    match ← p.compute u.document u.position with
    | .error f => pure { u with stage := .ended (.error f) }
    | .ok report => pure { u with stage := .computed report }
  | .computed report => do
    let outcome ← deliver u.receive u.document u.ticket report
    pure { u with stage := .ended outcome }
  | .ended _ => pure u

/-- The report that an event gave out on its way from `u` to `v`. -/
def given? (u v : Update σ) : Option Publication :=
  match u.stage, v.stage with
  | .computed report, .ended (.ok (.published _)) => some ⟨u.ticket, u.document, report, true⟩
  | .computed report, .ended (.error _) => some ⟨u.ticket, u.document, report, false⟩
  | _, _ => none

end Update

/-- The events so far in the order of their tickets, and the reports in the order in which they were
given out. -/
structure Traffic (σ : Type) where
  desk : Desk σ
  updates : List (Update σ)
  given : List Publication

inductive Move (σ : Type)
  | arrive (d : Document) (at_ : Position) (receive : Report → Lookup σ Unit)
  /-- The event that holds the ticket takes its next step. -/
  | advance (ticket : Nat)
  | reset
  /-- Something else that the host is used for. -/
  | elsewhere (f : Session σ → Session σ)

namespace Traffic

variable {σ : Type}

def start (session : Session σ) : Traffic σ := ⟨⟨.initial, session⟩, [], []⟩

def tickets (s : Traffic σ) : Tickets := s.desk.tickets

def move (p : Pipeline σ) (s : Traffic σ) : Move σ → Traffic σ
  | .arrive d at_ receive =>
    let (ticket, desk) := Update.enter s.desk
    ⟨desk, s.updates ++ [⟨d, at_, receive, ticket, none, .entered⟩], s.given⟩
  | .advance ticket =>
    match s.updates[ticket]? with
    | none => s
    | some u =>
      let (v, desk) := u.advance p s.desk
      ⟨desk, s.updates.set ticket v, s.given ++ (u.given? v).toList⟩
  | .reset => ⟨(Update.forget s.desk).2, s.updates, s.given⟩
  | .elsewhere f => ⟨⟨s.desk.tickets, f s.desk.session⟩, s.updates, s.given⟩

/-- One interleaving. -/
def run (p : Pipeline σ) (s : Traffic σ) (moves : List (Move σ)) : Traffic σ :=
  moves.foldl (move p) s

end Traffic

end Callees

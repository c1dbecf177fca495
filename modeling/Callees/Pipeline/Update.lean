import Callees.Pipeline

namespace Callees

/-- What makes two scopes the same to an observer. -/
structure Scope.Identity where
  uri : String
  version : Int
  range : Range
  name : String
  deriving Repr, DecidableEq

def Scope.identity (d : Document) (s : Scope) : Scope.Identity := ⟨d.uri, d.version, s.range, s.name⟩

structure Tickets where
  next : Nat
  published : Option Nat
  /-- The event that recorded `last`. -/
  recorded : Option Nat
  last : Option Scope.Identity
  deriving Repr, DecidableEq

namespace Tickets

def initial : Tickets := ⟨0, none, none, none⟩

def newer (ticket : Nat) (than : Option Nat) : Bool := than.all (· < ticket)

def take (t : Tickets) : Nat × Tickets := (t.next, { t with next := t.next + 1 })

/-- Whether the scope is the one that is known already. -/
def unchanged (t : Tickets) (found : Option Scope.Identity) : Bool :=
  found.isSome && found == t.last

/-- Only a newer event replaces what is recorded. -/
def record (t : Tickets) (ticket : Nat) (found : Option Scope.Identity) : Tickets :=
  if newer ticket t.recorded then { t with last := found, recorded := some ticket } else t

def stale (t : Tickets) (ticket : Nat) : Bool := t.published.any (ticket < ·)

def publish (t : Tickets) (ticket : Nat) : Tickets := { t with published := some ticket }

/-- Forgets the scope, so that the next event counts as a change. -/
def reset (t : Tickets) : Tickets := { t with last := none }

end Tickets

/-- Tickets beside the state of the lookups. -/
structure Desk (σ : Type) where
  tickets : Tickets
  session : Session σ

abbrev AtDesk (σ : Type) := StateM (Desk σ)

namespace AtDesk

variable {σ α β : Type}

def lookup (m : Lookup σ α) : AtDesk σ (Except Failure α) := fun desk =>
  let (outcome, session) := m.run desk.session
  (outcome, ⟨desk.tickets, session⟩)

def note (e : Event) : AtDesk σ Unit := fun desk =>
  ((), ⟨desk.tickets, ⟨desk.session.host, desk.session.log ++ [e]⟩⟩)

def tickets (f : Tickets → α × Tickets) : AtDesk σ α := fun desk =>
  let (a, t) := f desk.tickets
  (a, ⟨t, desk.session⟩)

/-- Goes on with what a step has come to, unless it has failed. -/
def andThen (m : AtDesk σ (Except Failure α)) (f : α → AtDesk σ (Except Failure β)) :
    AtDesk σ (Except Failure β) := do
  match ← m with
  | .ok a => f a
  | .error failure => pure (.error failure)

@[simp] theorem pure_at (a : α) (desk : Desk σ) : (pure a : AtDesk σ α) desk = (a, desk) := rfl

@[simp] theorem bind_at (m : AtDesk σ α) (f : α → AtDesk σ β) (desk : Desk σ) :
    (m >>= f) desk = f (m desk).1 (m desk).2 := rfl

@[simp] theorem map_at (f : α → β) (m : AtDesk σ α) (desk : Desk σ) :
    (f <$> m) desk = (f (m desk).1, (m desk).2) := rfl

@[simp] theorem lookup_at (m : Lookup σ α) (desk : Desk σ) :
    lookup m desk = ((m.run desk.session).1, ⟨desk.tickets, (m.run desk.session).2⟩) := rfl

@[simp] theorem note_at (e : Event) (desk : Desk σ) :
    note e desk = ((), ⟨desk.tickets, ⟨desk.session.host, desk.session.log ++ [e]⟩⟩) := rfl

@[simp] theorem tickets_at (f : Tickets → α × Tickets) (desk : Desk σ) :
    tickets f desk = ((f desk.tickets).1, ⟨(f desk.tickets).2, desk.session⟩) := rfl

theorem andThen_ok {m : AtDesk σ (Except Failure α)} {f : α → AtDesk σ (Except Failure β)}
    {desk desk' : Desk σ} {a : α} (h : m desk = (.ok a, desk')) : m.andThen f desk = f a desk' := by
  simp only [andThen, bind_at, h]

theorem andThen_error {m : AtDesk σ (Except Failure α)} {f : α → AtDesk σ (Except Failure β)}
    {desk desk' : Desk σ} {failure : Failure} (h : m desk = (.error failure, desk')) :
    m.andThen f desk = (.error failure, desk') := by
  simp only [andThen, bind_at, h, pure_at]

theorem andThen_pure_desk (m : AtDesk σ (Except Failure α)) (f : α → Except Failure β)
    (desk : Desk σ) : (m.andThen (fun a => pure (f a)) desk).2 = (m desk).2 := by
  rcases h : m desk with ⟨failure | a, desk'⟩
  · rw [andThen_error h]
  · rw [andThen_ok h, pure_at]

end AtDesk

namespace Update

variable {σ : Type}
open AtDesk

/-- Takes a ticket. -/
def enter : AtDesk σ Nat := tickets Tickets.take

/-- Forgets the scope that was recorded last. -/
def forget : AtDesk σ Unit := tickets fun t => ((), t.reset)

/-- Whether to go on with a scope that was found. If so, it is recorded. -/
def accept (d : Document) (ticket : Nat) (scope : Option Scope) : AtDesk σ Bool := do
  let found := scope.map (Scope.identity d)
  let known ← tickets fun t => (t.unchanged found, t)
  if known then
    note (.scopeUnchanged d.uri ((scope.map Scope.name).getD ""))
    pure false
  else
    tickets fun t => ((), t.record ticket found)
    pure true

/-- Whether the report may be published. If so, its ticket counts as published. -/
def settle (d : Document) (ticket : Nat) : AtDesk σ Bool := do
  let stale ← tickets fun t => (t.stale ticket, t)
  if stale then
    note (.staleDropped d.uri ticket)
    pure false
  else
    tickets fun t => ((), t.publish ticket)
    pure true

end Update

/-- How an event ended. -/
inductive Update.Outcome
  | unchanged
  | stale
  | published (report : Report)
  deriving Repr

/-- Gives out a report that is not stale. Its ticket counts as published before `receive` is asked, so
it does so even where the receiver fails. -/
def Update.deliver {σ : Type} (receive : Report → Lookup σ Unit) (d : Document) (ticket : Nat)
    (report : Report) : AtDesk σ (Except Failure Update.Outcome) := do
  if ← settle d ticket then
    match ← AtDesk.lookup (receive report) with
    | .ok () => pure (.ok (.published report))
    | .error f => pure (.error f)
  else pure (.ok .stale)

namespace Pipeline

variable {σ α β : Type}
open AtDesk Update

/-- The scope of an event that holds its ticket, and whether the event goes on with it. -/
def check (p : Pipeline σ) (d : Document) (at_ : Position) (ticket : Nat) :
    AtDesk σ (Except Failure (Option Scope × Bool)) := do
  match ← AtDesk.lookup (p.locate d at_) with
  | .error f => pure (.error f)
  | .ok scope =>
    let goesOn ← accept d ticket scope
    pure (.ok (scope, goesOn))

def compute (p : Pipeline σ) (d : Document) (at_ : Position) : AtDesk σ (Except Failure Report) :=
  AtDesk.lookup (p.run d at_)

/-- Computes the report of an event that has been accepted, and gives it out. -/
def conclude (p : Pipeline σ) (receive : Report → Lookup σ Unit) (d : Document) (at_ : Position)
    (ticket : Nat) : AtDesk σ (Except Failure Update.Outcome) :=
  (p.compute d at_).andThen (deliver receive d ticket)

/-- What an event does once it holds its ticket. -/
def proceed (p : Pipeline σ) (receive : Report → Lookup σ Unit) (before : AtDesk σ (Except Failure α))
    (during : AtDesk σ (Except Failure β)) (d : Document) (at_ : Position) (ticket : Nat) :
    AtDesk σ (Except Failure (α × Option β × Update.Outcome)) :=
  before.andThen fun first =>
    (p.check d at_ ticket).andThen fun (_, goesOn) =>
      if goesOn then
        during.andThen fun second =>
          (p.conclude receive d at_ ticket).andThen fun outcome =>
            pure (.ok (first, some second, outcome))
      else pure (.ok (first, none, .unchanged))

/-- One cursor event, with what came of it. `before` happens after the ticket is taken and before the
scope is looked for, `during` after the scope is recorded and before the report is computed; their
own results come along, and the event fails where one of them does. -/
def update (p : Pipeline σ) (receive : Report → Lookup σ Unit) (before : AtDesk σ (Except Failure α))
    (during : AtDesk σ (Except Failure β)) (d : Document) (at_ : Position) :
    AtDesk σ (Except Failure (α × Option β × Update.Outcome)) := do
  let ticket ← enter
  p.proceed receive before during d at_ ticket

end Pipeline

end Callees

import Callees.Pipeline

namespace Callees

namespace Resolver

variable {σ : Type}

/-- The query that a lookup begins with. Without an index, or without a name, nothing is asked. -/
def ask (r : Resolver σ) (name : String) : StateM (Session σ) (Except Failure (List SymbolInfo)) :=
  match r.symbols with
  | some symbols => if name = "" then pure (.ok []) else (symbols name).run
  | none => pure (.ok [])

/-- The same resolver, once the index has answered. -/
def answered (r : Resolver σ) (answer : Except Failure (List SymbolInfo)) : Resolver σ :=
  ⟨r.openDocument, r.symbols.map fun _ _ => Lookup.ofResult answer⟩

end Resolver

namespace Pool

/-- How far the lookup of a name has come. -/
inductive Stage
  | waiting
  | asked (answer : Except Failure (List SymbolInfo))
  | ended (outcome : Except Failure (Option Definition))

namespace Stage

def isWaiting : Stage → Bool
  | waiting => true
  | _ => false

/-- A worker has taken the name up, and is not done with it. -/
def underWay : Stage → Bool
  | asked _ => true
  | _ => false

def outcome? : Stage → Option (Except Failure (Option Definition))
  | ended outcome => some outcome
  | _ => none

end Stage

structure Task where
  name : String
  stage : Stage

variable {σ : Type}

/-- The next step of a lookup. -/
def Task.next (p : Pipeline σ) (r : Resolver σ) (d : Document) (t : Task) :
    StateM (Session σ) Stage :=
  match t.stage with
  | .waiting => do pure (.asked (← r.ask t.name))
  | .asked answer => do
    pure (.ended (← ({ p with resolve := (r.answered answer).resolve }.resolveOne d t.name).run))
  | .ended outcome => pure (.ended outcome)

namespace Task

variable {p : Pipeline σ} {r : Resolver σ} {d : Document} {t : Task} {s : Session σ}

theorem next_waiting (h : t.stage = .waiting) :
    t.next p r d s = (.asked (r.ask t.name s).1, (r.ask t.name s).2) := by
  rw [next, h]
  rfl

theorem next_asked {answer : Except Failure (List SymbolInfo)} (h : t.stage = .asked answer) :
    t.next p r d s =
      (.ended (({ p with resolve := (r.answered answer).resolve }.resolveOne d t.name).run s).1,
        (({ p with resolve := (r.answered answer).resolve }.resolveOne d t.name).run s).2) := by
  rw [next, h]
  rfl

theorem next_ended {outcome : Except Failure (Option Definition)} (h : t.stage = .ended outcome) :
    t.next p r d s = (.ended outcome, s) := by
  rw [next, h]
  rfl

end Task

end Pool

/-- The tasks in the order in which their names were given. -/
structure Pool (σ : Type) where
  session : Session σ
  tasks : List Pool.Task

namespace Pool

variable {σ : Type}

def start (names : List String) (session : Session σ) : Pool σ :=
  ⟨session, names.map (⟨·, .waiting⟩)⟩

/-- No more workers than there is work for. -/
def workers (p : Pipeline σ) (s : Pool σ) : Int := min p.maxWorkers s.tasks.length

/-- Names are taken up in their order, each when a worker is free. -/
def allows (p : Pipeline σ) (s : Pool σ) (i : Nat) : Stage → Bool
  | .waiting => (s.tasks.take i).all (fun t => !t.stage.isWaiting) &&
      decide (s.tasks.countP (·.stage.underWay) < s.workers p)
  | _ => true

/-- The task at `i` takes its next step, if it may. -/
def step (p : Pipeline σ) (r : Resolver σ) (d : Document) (s : Pool σ) (i : Nat) : Pool σ :=
  match s.tasks[i]? with
  | none => s
  | some t =>
    if s.allows p i t.stage then
      let (stage, session) := t.next p r d s.session
      ⟨session, s.tasks.set i { t with stage }⟩
    else s

theorem step_allowed {p : Pipeline σ} {s : Pool σ} {i : Nat} {t : Task} (ht : s.tasks[i]? = some t)
    (ha : s.allows p i t.stage = true) (r : Resolver σ) (d : Document) :
    s.step p r d i = ⟨(t.next p r d s.session).2,
      s.tasks.set i { t with stage := (t.next p r d s.session).1 }⟩ := by
  rw [step, ht]
  exact if_pos ha

theorem step_cases (p : Pipeline σ) (r : Resolver σ) (d : Document) (s : Pool σ) (i : Nat) :
    s.step p r d i = s ∨ ∃ t, s.tasks[i]? = some t ∧ s.allows p i t.stage = true ∧
      s.step p r d i = ⟨(t.next p r d s.session).2,
        s.tasks.set i { t with stage := (t.next p r d s.session).1 }⟩ := by
  cases ht : s.tasks[i]? with
  | none =>
    rw [step, ht]
    exact .inl rfl
  | some t =>
    by_cases ha : s.allows p i t.stage = true
    · exact .inr ⟨t, rfl, ha, step_allowed ht ha r d⟩
    · rw [step, ht]
      exact .inl (if_neg ha)

/-- One order in which the workers take their steps. -/
def run (p : Pipeline σ) (r : Resolver σ) (d : Document) (s : Pool σ) (schedule : List Nat) :
    Pool σ :=
  schedule.foldl (step p r d) s

/-- What the tasks have found, in the order of their names, once all have ended. One that failed would
fail them all. -/
def collect : List Task → Option (Except Failure (List Definition))
  | [] => some (.ok [])
  | t :: ts => do
    let outcome ← t.stage.outcome?
    let rest ← collect ts
    pure do
      let found ← outcome
      let others ← rest
      pure (found.toList ++ others)

def result? (s : Pool σ) : Option (Except Failure (List Definition)) := collect s.tasks

end Pool

end Callees

import Callees.Data.Json
import Callees.Pipeline
import Callees.Report

namespace Callees

structure Repetition where
  ok : Bool
  runs : Int
  names : List String
  mismatches : List String
  missing : List String
  extra : List String
  deriving Repr, DecidableEq

namespace Repetition

/-- The written form of each name's definition; of several, the last counts. -/
def written (found : List Definition) : Option (List (String × String)) :=
  found.mapM fun d => (Json.text? d.toData false).map (d.name, ·)

def lookup (name : String) (entries : List (String × String)) : Option String :=
  entries.reverse.lookup name

/-- How the later runs differ from the first. -/
def compare (runs : Int) (first : List (String × String)) (later : List (List (String × String))) :
    Repetition :=
  let names := first.map Prod.fst
  let missing := later.flatMap fun run => names.filter fun n => (lookup n run).isNone
  let extra := later.flatMap fun run =>
    (run.map Prod.fst).filter fun n => (lookup n first).isNone
  let mismatches := later.flatMap fun run =>
    names.filter fun n => (lookup n run).any fun text => lookup n first != some text
  let reordered := later.any fun run => run.map Prod.fst != names
  ⟨missing.isEmpty && extra.isEmpty && mismatches.isEmpty && !reordered, runs, names,
    nameSet mismatches, nameSet missing, nameSet extra⟩

variable {σ : Type}
open Lookup

def writtenRun (p : Pipeline σ) (d : Document) (at_ : Position) :
    Lookup σ (List (String × String)) := do
  let report ← p.run d at_
  match written report.definitions with
  | some entries => pure entries
  | none => fail .integerTooWide

def laterRuns (p : Pipeline σ) (d : Document) (at_ : Position) :
    Nat → Lookup σ (List (List (String × String)))
  | 0 => pure []
  | n + 1 => do
    let run ← writtenRun p d at_
    let rest ← laterRuns p d at_ n
    pure (run :: rest)

def verify (p : Pipeline σ) (d : Document) (at_ : Position) (runs : Int) :
    Lookup σ Repetition := do
  if runs < 2 then fail (.tooFewRuns runs)
  else
    let first ← writtenRun p d at_
    let later ← laterRuns p d at_ (runs - 1).toNat
    pure (compare runs first later)

def toData (r : Repetition) : Data :=
  let texts := fun (names : List String) => Data.list (names.map .text)
  .record [("ok", .bool r.ok), ("runs", .int r.runs), ("names", texts r.names),
    ("mismatches", texts r.mismatches), ("missing", texts r.missing), ("extra", texts r.extra)]

/-- What to complain of, line by line. A run that only changed the order has a line of its own. -/
def complaints (r : Repetition) : List String :=
  if r.ok then []
  else
    let named := r.missing.map ("missing: " ++ ·) ++ r.extra.map ("extra: " ++ ·) ++
      r.mismatches.map ("mismatches: " ++ ·)
    if named.isEmpty then ["order: definitions came back in a different order"] else named

end Repetition

end Callees

import Callees.Proofs.Steady
import Callees.Proofs.Tiers

namespace Callees

namespace Resolver

variable {σ : Type}

/-- Queries are answered, and documents are opened, with the same outcome every time. -/
structure Steady (r : Resolver σ) : Prop where
  index : ∀ symbols ∈ r.symbols, ∀ name, (symbols name).Steady
  homes : ∀ uri, (r.openDocument uri).Steady

variable {r : Resolver σ}

theorem Steady.inIndex (hr : r.Steady) {symbols : String → Lookup σ (List SymbolInfo)}
    (hs : symbols ∈ r.symbols) (name : String) : (r.inIndex symbols name).Steady := by
  apply (hr.index symbols hs name).bind
  intro infos
  cases Definition.candidates name infos with
  | nil => exact Lookup.steady_pure none
  | cons info rest => exact (hr.homes info.uri).bind fun _ => Lookup.steady_pure _

theorem Steady.resolve (hr : r.Steady) (name : String) (d : Document) :
    (r.resolve name d).Steady := by
  unfold Resolver.resolve
  split
  · exact Lookup.steady_pure none
  · apply Tier.firstHit_steady
    intro tier hm
    rcases List.mem_append.mp hm with hm | hm
    · obtain ⟨symbols, hs, rfl⟩ := List.mem_map.mp hm
      exact hr.inIndex (Option.mem_toList.mp hs) name
    · cases List.mem_singleton.mp hm
      exact Lookup.steady_ofResult _

end Resolver

namespace Pipeline

variable {σ : Type}

structure Steady (p : Pipeline σ) : Prop where
  locator : p.locator.Steady
  resolve : ∀ name d, (p.resolve name d).Steady

variable {p : Pipeline σ} (hp : p.Steady) (d : Document)

include hp

theorem Steady.resolveOne (name : String) : (p.resolveOne d name).Steady := by
  apply (hp.resolve name d).attempt.bind
  intro outcome
  cases outcome with
  | ok found => exact Lookup.steady_pure found
  | error f => exact (Lookup.steady_note _).bind fun _ => Lookup.steady_pure none

theorem Steady.resolveEach (names : List String) : (p.resolveEach d names).Steady := by
  induction names with
  | nil => exact Lookup.steady_pure []
  | cons name names ih =>
    exact (hp.resolveOne d name).bind fun _ => ih.bind fun _ => Lookup.steady_pure _

theorem Steady.resolveAll (names : List String) : (p.resolveAll d names).Steady := by
  unfold Pipeline.resolveAll
  split
  · exact Lookup.steady_pure []
  · split
    · exact Lookup.steady_fail _
    · exact hp.resolveEach d names

theorem Steady.run (at_ : Position) : (p.run d at_).Steady := by
  apply (hp.locator.locate d at_).bind
  intro scope
  cases scope with
  | none => exact Lookup.steady_pure _
  | some scope =>
    exact (hp.resolveAll d _).bind fun _ => (Lookup.steady_note _).bind fun _ => Lookup.steady_pure _

omit hp

/-- Once the scope is known, the definitions of its calls decide. -/
theorem run_located {at_ : Position} {s s' : Session σ} {scope : Scope}
    (hl : (p.locate d at_).run s = (.ok (some scope), s')) :
    ((p.run d at_).run s).1 =
      ((p.resolveAll d ((p.callSites d scope).map CallSite.name)).run s').1.map fun definitions =>
        ⟨d.uri, at_, some scope, p.callSites d scope, definitions⟩ := by
  rw [Pipeline.run, Lookup.run_bind_ok hl, Lookup.run_bind]
  rcases (p.resolveAll d ((p.callSites d scope).map CallSite.name)).run s' with ⟨f | ds, s''⟩ <;> rfl

variable {d}

include hp

/-- From two places in one scope the reports are the same but for the place. -/
theorem Steady.run_same_scope {at_ at' : Position} {scope : Scope} {report : Report} {s s' : Session σ}
    (hr : ((p.run d at_).run s).1 = .ok report) (hs : report.scope = some scope)
    (hl : ((p.locate d at').run s').1 = .ok (some scope)) :
    ((p.run d at').run s').1 = .ok { report with position := at' } := by
  have hlocated := run_scope hr
  rw [hs] at hlocated
  have hrun := run_located d (Prod.ext hlocated rfl)
  have hrun' := run_located d (Prod.ext hl rfl)
  obtain ⟨outcome, ho⟩ := hp.resolveAll d ((p.callSites d scope).map CallSite.name)
  rw [ho] at hrun hrun'
  rw [hr] at hrun
  cases outcome with
  | error f => cases hrun
  | ok definitions =>
    cases hrun
    exact hrun'

end Pipeline

end Callees

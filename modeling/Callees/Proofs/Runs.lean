import Callees.Pipeline
import Callees.Proofs.Tiers

namespace Callees.Pipeline

variable {σ : Type}

/-- The lookups of the names, each with the session that it is made in. -/
def lookups (p : Pipeline σ) (d : Document) : List String → Session σ → List (String × Session σ)
  | [], _ => []
  | name :: names, s => (name, s) :: p.lookups d names ((p.resolveOne d name).run s).2

/-- What a lookup finds; a failure finds nothing. -/
def answer (p : Pipeline σ) (d : Document) (q : String × Session σ) : Option Definition :=
  ((p.resolve q.1 d).value? q.2).join

theorem lookups_names (p : Pipeline σ) (d : Document) (names : List String) (s : Session σ) :
    (p.lookups d names s).map Prod.fst = names := by
  induction names generalizing s with
  | nil => rfl
  | cons name names ih => exact congrArg (name :: ·) (ih _)

theorem resolveOne_run (p : Pipeline σ) (d : Document) (name : String) (s : Session σ) :
    ((p.resolveOne d name).run s).1 = .ok (p.answer d (name, s)) := by
  rw [resolveOne, Lookup.run_bind, Lookup.run_attempt, answer, Lookup.value?]
  rcases ((p.resolve name d).run s).1 with f | found <;> rfl

/-- No lookup fails as a whole, and each contributes what it finds. -/
theorem resolveEach_run (p : Pipeline σ) (d : Document) (names : List String) (s : Session σ) :
    ((p.resolveEach d names).run s).1 = .ok ((p.lookups d names s).filterMap (p.answer d)) := by
  induction names generalizing s with
  | nil => rfl
  | cons name names ih =>
    have hone := p.resolveOne_run d name s
    have hrest := ih ((p.resolveOne d name).run s).2
    rw [resolveEach, Lookup.run_bind, lookups]
    rcases h : (p.resolveOne d name).run s with ⟨f | found, s'⟩
    · rw [h] at hone
      cases hone
    · rw [h] at hone hrest
      cases hone
      rcases h' : (p.resolveEach d names).run s' with ⟨f | found, s''⟩
      · rw [h'] at hrest
        cases hrest
      · rw [h'] at hrest
        cases hrest
        simp only [Lookup.run_bind, h', Lookup.run_pure, List.filterMap_cons]
        cases p.answer d (name, s) <;> rfl

/-- How a run can end. -/
inductive Ran (p : Pipeline σ) (d : Document) (at_ : Position) (s : Session σ) :
    Except Failure Report → Prop
  | lost {f : Failure} (failed : ((p.locate d at_).run s).1 = .error f) : Ran p d at_ s (.error f)
  | outside (located : ((p.locate d at_).run s).1 = .ok none) :
      Ran p d at_ s (.ok ⟨d.uri, at_, none, [], []⟩)
  | idle {scope : Scope} (located : ((p.locate d at_).run s).1 = .ok (some scope))
      (workers : p.maxWorkers < 1) : Ran p d at_ s (.error .noWorkers)
  | inside {scope : Scope} {s' : Session σ} (located : (p.locate d at_).run s = (.ok (some scope), s')) :
      Ran p d at_ s (.ok ⟨d.uri, at_, some scope, p.callSites d scope,
        (p.lookups d ((p.callSites d scope).map CallSite.name) s').filterMap (p.answer d)⟩)

theorem resolveAll_run (p : Pipeline σ) (d : Document) (names : List String) (s : Session σ) :
    (p.maxWorkers < 1 ∧ ((p.resolveAll d names).run s).1 = .error .noWorkers) ∨
    ((p.resolveAll d names).run s).1 = .ok ((p.lookups d names s).filterMap (p.answer d)) := by
  rw [resolveAll]
  split
  · next hnames =>
    rw [List.isEmpty_iff.mp hnames]
    exact .inr rfl
  · split
    · next hworkers => exact .inl ⟨hworkers, rfl⟩
    · exact .inr (p.resolveEach_run d names s)

theorem run_ran (p : Pipeline σ) (d : Document) (at_ : Position) (s : Session σ) :
    p.Ran d at_ s ((p.run d at_).run s).1 := by
  rw [Pipeline.run, Lookup.run_bind]
  rcases hl : (p.locate d at_).run s with ⟨f | _ | scope, s'⟩
  · exact .lost (congrArg Prod.fst hl)
  · exact .outside (congrArg Prod.fst hl)
  · dsimp only
    rw [Lookup.run_bind]
    rcases p.resolveAll_run d ((p.callSites d scope).map CallSite.name) s' with ⟨hw, hr⟩ | hr
    · rcases h : (p.resolveAll d ((p.callSites d scope).map CallSite.name)).run s' with ⟨f | found, s''⟩
      · rw [h] at hr
        cases hr
        exact .idle (congrArg Prod.fst hl) hw
      · rw [h] at hr
        cases hr
    · rcases h : (p.resolveAll d ((p.callSites d scope).map CallSite.name)).run s' with ⟨f | found, s''⟩
      · rw [h] at hr
        cases hr
      · rw [h] at hr
        cases hr
        exact .inside hl

end Callees.Pipeline

import Callees.Pipeline

namespace Callees

/-- Asking again gives the same outcome, whatever happened in between. -/
def Lookup.Steady {σ α : Type} (m : Lookup σ α) : Prop :=
  ∃ outcome, ∀ session, (m.run session).1 = outcome

namespace Lookup

variable {σ α β : Type}

theorem Steady.same {m : Lookup σ α} (hm : Steady m) (s s' : Session σ) :
    (m.run s).1 = (m.run s').1 := by
  obtain ⟨outcome, ho⟩ := hm
  rw [ho, ho]

theorem run_bind (m : Lookup σ α) (f : α → Lookup σ β) (s : Session σ) :
    (m >>= f).run s = match m.run s with
      | (.ok a, s') => (f a).run s'
      | (.error e, s') => (.error e, s') := by
  change (ExceptT.bindCont f (m.run s).1) (m.run s).2 = _
  rcases m.run s with ⟨_ | a, s'⟩ <;> rfl

theorem steady_pure (a : α) : Steady (pure a : Lookup σ α) := ⟨.ok a, fun _ => rfl⟩

theorem steady_fail (f : Failure) : Steady (fail f : Lookup σ α) := ⟨.error f, fun _ => rfl⟩

theorem steady_note (e : Event) : Steady (note e : Lookup σ Unit) := ⟨.ok (), fun _ => rfl⟩

theorem steady_ofResult (r : Except Failure α) : Steady (ofResult r : Lookup σ α) := by
  cases r with
  | ok a => exact steady_pure a
  | error f => exact steady_fail f

theorem Steady.attempt {m : Lookup σ α} (hm : Steady m) : Steady (attempt m) := by
  obtain ⟨outcome, ho⟩ := hm
  exact ⟨.ok outcome, fun s => congrArg Except.ok (ho s)⟩

theorem Steady.bind {m : Lookup σ α} {f : α → Lookup σ β} (hm : Steady m)
    (hf : ∀ a, Steady (f a)) : Steady (m >>= f) := by
  obtain ⟨outcome, ho⟩ := hm
  cases outcome with
  | error e =>
    refine ⟨.error e, fun s => ?_⟩
    have hs := ho s
    rw [run_bind]
    rcases hr : m.run s with ⟨r, s'⟩
    rw [hr] at hs
    subst hs
    rfl
  | ok a =>
    obtain ⟨later, hl⟩ := hf a
    refine ⟨later, fun s => ?_⟩
    have hs := ho s
    rw [run_bind]
    rcases hr : m.run s with ⟨r, s'⟩
    rw [hr] at hs
    subst hs
    exact hl s'

end Lookup

namespace Tier

variable {σ α β : Type}

theorem firstHit_steady (strategy : String) (tiers : List (Tier σ α β)) (x : α)
    (ht : ∀ tier ∈ tiers, (tier.lookup x).Steady) : (firstHit strategy tiers x).Steady := by
  induction tiers with
  | nil => exact Lookup.steady_pure none
  | cons tier rest ih =>
    have hrest := ih fun t hm => ht t (List.mem_cons_of_mem _ hm)
    unfold firstHit
    apply (ht tier List.mem_cons_self).attempt.bind
    intro found
    rcases found with f | _ | b
    · dsimp only
      split
      · exact (Lookup.steady_note _).bind fun _ => hrest
      · exact Lookup.steady_fail f
    · exact (Lookup.steady_note _).bind fun _ => hrest
    · exact (Lookup.steady_note _).bind fun _ => Lookup.steady_pure _

end Tier

/-- The outline of a document is the same whenever it is asked for. -/
def Locator.Steady {σ : Type} (l : Locator σ) : Prop :=
  ∀ outline ∈ l.outline, ∀ d, (outline d).Steady

theorem Locator.Steady.locate {σ : Type} {l : Locator σ} (hl : l.Steady) (d : Document)
    (at_ : Position) : (l.locate d at_).Steady := by
  apply Tier.firstHit_steady
  intro tier hm
  rcases List.mem_append.mp hm with hm | hm
  · obtain ⟨outline, ho, rfl⟩ := List.mem_map.mp hm
    exact (hl outline (Option.mem_toList.mp ho) d).bind fun _ => Lookup.steady_pure _
  · cases List.mem_singleton.mp hm
    exact Lookup.steady_ofResult _

namespace Pipeline

variable {σ : Type} {p : Pipeline σ}

/-- A report is about the scope that is located when it is computed. -/
theorem run_scope {d : Document} {at_ : Position} {s : Session σ} {report : Report}
    (hr : ((p.run d at_).run s).1 = .ok report) :
    ((p.locate d at_).run s).1 = .ok report.scope := by
  unfold Pipeline.run at hr
  rw [Lookup.run_bind] at hr
  rcases hl : (p.locate d at_).run s with ⟨f | _ | scope, s'⟩
  · rw [hl] at hr
    cases hr
  · rw [hl] at hr
    cases hr
    rfl
  · rw [hl] at hr
    dsimp only at hr
    rw [Lookup.run_bind] at hr
    rcases hd : (p.resolveAll d ((p.callSites d scope).map CallSite.name)).run s' with ⟨f | ds, s''⟩
    · rw [hd] at hr
      cases hr
    · rw [hd] at hr
      cases hr
      rfl

end Pipeline

end Callees

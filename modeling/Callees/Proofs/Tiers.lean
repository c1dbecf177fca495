import Callees.Definition
import Callees.Proofs.Steady
import Callees.Scope

namespace Callees

namespace Lookup

variable {σ α β : Type}

theorem run_bind_ok {m : Lookup σ α} {s s' : Session σ} {a : α} (h : m.run s = (.ok a, s'))
    (next : α → Lookup σ β) : (m >>= next).run s = (next a).run s' := by
  rw [run_bind, h]

theorem run_bind_error {m : Lookup σ α} {s : Session σ} {f : Failure}
    (h : (m.run s).1 = .error f) (next : α → Lookup σ β) :
    ((m >>= next).run s).1 = .error f := by
  rw [run_bind]
  rcases hm : m.run s with ⟨r, s'⟩
  rw [hm] at h
  subst h
  rfl

theorem run_attempt (m : Lookup σ α) (s : Session σ) :
    (attempt m).run s = (.ok (m.run s).1, (m.run s).2) := rfl

theorem run_pure (a : α) (s : Session σ) : (pure a : Lookup σ α).run s = (.ok a, s) := rfl

theorem run_ofResult (r : Except Failure α) (s : Session σ) : ((ofResult r).run s).1 = r := by
  cases r <;> rfl

/-- The value of a lookup in a session, unless it fails there. -/
def value? (m : Lookup σ α) (s : Session σ) : Option α := (m.run s).1.toOption

end Lookup

namespace Tier

variable {σ α β : Type}

theorem firstHit_last {strategy : String} {last : Tier σ α β} {x : α} {result : Except Failure (Option β)}
    (hg : last.guarded = false) (hlast : ∀ s, ((last.lookup x).run s).1 = result) (s : Session σ) :
    ((firstHit strategy [last] x).run s).1 = result := by
  have hs := hlast s
  rw [firstHit, Lookup.run_bind, Lookup.run_attempt]
  simp only [hs]
  rcases result with f | _ | b
  · simp only [hg]
    rfl
  · rfl
  · rfl

/-- A guarded tier that fails or misses leaves the answer to the next one. -/
theorem firstHit_guarded {strategy : String} {first last : Tier σ α β} {x : α}
    {result : Except Failure (Option β)} (hg : first.guarded = true) (hl : last.guarded = false)
    (hlast : ∀ s, ((last.lookup x).run s).1 = result) (s : Session σ) :
    ((firstHit strategy [first, last] x).run s).1 =
      (((first.lookup x).value? s).join).elim result fun b => .ok (some b) := by
  rw [firstHit, Lookup.run_bind, Lookup.run_attempt, Lookup.value?]
  rcases ((first.lookup x).run s).1 with f | _ | b
  · simp only [hg]
    exact firstHit_last hl hlast _
  · exact firstHit_last hl hlast _
  · rfl

end Tier

namespace Locator

variable {σ : Type}

/-- The scope that the outline shows in a session, if there is an outline and it can be had. -/
def shown? (l : Locator σ) (d : Document) (p : Position) (s : Session σ) : Option Scope :=
  l.outline.bind fun outline => ((outline d).value? s).bind (Scope.ofOutline · p)

/-- The outline's scope if it shows one, and the one that the braces show otherwise. -/
theorem locate_outcome (l : Locator σ) (d : Document) (p : Position) (s : Session σ) :
    ((l.locate d p).run s).1 =
      (l.shown? d p s).elim (Scope.ofBraces l.window d p) fun scope => .ok (some scope) := by
  have hbraces : ∀ s, (((bracesTier (σ := σ) l.window).lookup (d, p)).run s).1 =
      Scope.ofBraces l.window d p := Lookup.run_ofResult _
  unfold locate tiers shown?
  cases l.outline with
  | none => exact Tier.firstHit_last rfl hbraces s
  | some outline =>
    refine (Tier.firstHit_guarded rfl rfl hbraces s).trans ?_
    have hshown : (((outlineTier outline).lookup (d, p)).value? s).join =
        ((outline d).value? s).bind (Scope.ofOutline · p) := by
      simp only [outlineTier, Lookup.value?, Lookup.run_bind]
      rcases (outline d).run s with ⟨f | symbols, s'⟩ <;> rfl
    rw [hshown]
    rfl

end Locator

namespace Resolver

variable {σ : Type}

/-- The definition that the index gives for a name in a session, if there is an index and everything
that it takes can be had. -/
def indexed? (r : Resolver σ) (name : String) (s : Session σ) : Option Definition :=
  (r.symbols.bind fun symbols => (r.inIndex symbols name).value? s).join

/-- The index's definition if it gives one, and the one in the document's own text otherwise. -/
theorem resolve_outcome (r : Resolver σ) {name : String} (hname : name ≠ "") (d : Document)
    (s : Session σ) : ((r.resolve name d).run s).1 =
      (r.indexed? name s).elim (Definition.inText name d) fun found => .ok (some found) := by
  have hlocal : ∀ s, (((localTier (σ := σ)).lookup (name, d)).run s).1 = Definition.inText name d :=
    Lookup.run_ofResult _
  unfold resolve tiers indexed?
  rw [if_neg hname]
  cases r.symbols with
  | none => exact Tier.firstHit_last rfl hlocal s
  | some symbols => exact Tier.firstHit_guarded rfl rfl hlocal s

end Resolver

end Callees

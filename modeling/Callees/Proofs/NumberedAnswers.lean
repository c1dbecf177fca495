import Mathlib.Data.List.Nodup
import Callees.Lookup.Scripted
import Callees.Pipeline.Pool
import Callees.Proofs.Runs
import Callees.Proofs.SameScope

namespace Callees

namespace Lookup

variable {σ α β γ : Type}

/-- What `view` shows of the host is the same afterwards. -/
def Keeps (view : σ → γ) (m : Lookup σ α) : Prop := ∀ s, view (m.run s).2.host = view s.host

variable {view : σ → γ}

theorem keeps_pure (a : α) : Keeps view (pure a : Lookup σ α) := fun _ => rfl

theorem keeps_fail (f : Failure) : Keeps view (fail f : Lookup σ α) := fun _ => rfl

theorem keeps_note (e : Event) : Keeps view (note e : Lookup σ Unit) := fun _ => rfl

theorem keeps_ofResult (r : Except Failure α) : Keeps view (ofResult r : Lookup σ α) := by
  cases r with
  | ok a => exact keeps_pure a
  | error f => exact keeps_fail f

theorem Keeps.attempt {m : Lookup σ α} (hm : Keeps view m) : Keeps view (attempt m) := hm

theorem Keeps.bind {m : Lookup σ α} {f : α → Lookup σ β} (hm : Keeps view m)
    (hf : ∀ a, Keeps view (f a)) : Keeps view (m >>= f) := by
  intro s
  have hs := hm s
  rw [run_bind]
  rcases h : m.run s with ⟨e | a, s'⟩ <;> rw [h] at hs
  · exact hs
  · exact (hf a s').trans hs

end Lookup

namespace Tier

variable {σ α β γ : Type} {view : σ → γ}

theorem firstHit_keeps (strategy : String) (tiers : List (Tier σ α β)) (x : α)
    (ht : ∀ tier ∈ tiers, (tier.lookup x).Keeps view) : (firstHit strategy tiers x).Keeps view := by
  induction tiers with
  | nil => exact Lookup.keeps_pure none
  | cons tier rest ih =>
    have hrest := ih fun t hm => ht t (List.mem_cons_of_mem _ hm)
    unfold firstHit
    apply (ht tier List.mem_cons_self).attempt.bind
    intro found
    rcases found with f | _ | b
    · dsimp only
      split
      · exact (Lookup.keeps_note _).bind fun _ => hrest
      · exact Lookup.keeps_fail f
    · exact (Lookup.keeps_note _).bind fun _ => hrest
    · exact (Lookup.keeps_note _).bind fun _ => Lookup.keeps_pure _

/-- The first tier may have begun its work already. -/
theorem firstHit_resumed {strategy : String} {first first' : Tier σ α β} {rest : List (Tier σ α β)}
    {x : α} {s s' : Session σ} (hname : first'.name = first.name)
    (hguarded : first'.guarded = first.guarded)
    (h : (first.lookup x).run s = (first'.lookup x).run s') :
    (firstHit strategy (first :: rest) x).run s =
      (firstHit strategy (first' :: rest) x).run s' := by
  rw [firstHit, firstHit, Lookup.run_bind, Lookup.run_bind, Lookup.run_attempt,
    Lookup.run_attempt, h, hname, hguarded]

end Tier

namespace Resolver

variable {σ γ : Type} {r : Resolver σ}

/-- Either the index is asked, or nothing is. -/
theorem ask_cases (r : Resolver σ) (name : String) :
    (∃ symbols ∈ r.symbols, ∀ s, r.ask name s = (symbols name).run s) ∨
      ∀ s, r.ask name s = (.ok [], s) := by
  unfold ask
  cases r.symbols with
  | none => exact .inr fun _ => rfl
  | some symbols =>
    by_cases hname : name = ""
    · exact .inr fun _ => congrFun (if_pos hname) _
    · exact .inl ⟨symbols, rfl, fun _ => congrFun (if_neg hname) _⟩

/-- A lookup is its query and what is left to do with the answer. -/
theorem resolve_ask (r : Resolver σ) (name : String) (d : Document) (s : Session σ) :
    (r.resolve name d).run s =
      ((r.answered (r.ask name s).1).resolve name d).run (r.ask name s).2 := by
  by_cases hname : name = ""
  · rw [resolve, resolve, if_pos hname, if_pos hname, ask]
    cases r.symbols with
    | none => rfl
    | some symbols =>
      dsimp only
      rw [if_pos hname]
      rfl
  · rw [resolve, resolve, if_neg hname, if_neg hname, tiers, tiers, answered, ask]
    cases r.symbols with
    | none => rfl
    | some symbols =>
      dsimp only
      rw [if_neg hname]
      refine Tier.firstHit_resumed rfl rfl ?_
      simp only [indexTier, inIndex, Lookup.run_bind]
      rcases (symbols name).run s with ⟨f | infos, s'⟩ <;> rfl

/-- The index's answer to a name hangs on the name, and on how often it was asked for that name. -/
structure Numbered (r : Resolver σ) (asked : σ → String → Nat)
    (replies : String → Nat → Except Failure (List SymbolInfo))
    (store : String → Except Failure Document) : Prop where
  reply : ∀ symbols ∈ r.symbols, ∀ name s,
    ((symbols name).run s).1 = replies name (asked s.host name)
  counted : ∀ symbols ∈ r.symbols, ∀ name s other,
    asked ((symbols name).run s).2.host other = asked s.host other + if other = name then 1 else 0
  opened : ∀ uri s, ((r.openDocument uri).run s).1 = store uri
  uncounted : ∀ uri, (r.openDocument uri).Keeps asked

variable {asked : σ → String → Nat} {replies : String → Nat → Except Failure (List SymbolInfo)}
  {store : String → Except Failure Document} (hr : r.Numbered asked replies store)

include hr

theorem Numbered.answered_steady (answer : Except Failure (List SymbolInfo)) :
    (r.answered answer).Steady where
  index := by
    intro symbols hs name
    obtain ⟨_, -, rfl⟩ := Option.map_eq_some_iff.mp hs
    exact Lookup.steady_ofResult answer
  homes uri := ⟨store uri, hr.opened uri⟩

theorem Numbered.answered_keeps (answer : Except Failure (List SymbolInfo)) (name : String)
    (d : Document) : ((r.answered answer).resolve name d).Keeps asked := by
  unfold resolve
  split
  · exact Lookup.keeps_pure none
  · apply Tier.firstHit_keeps
    intro tier hm
    rcases List.mem_append.mp hm with hm | hm
    · obtain ⟨symbols, hs, rfl⟩ := List.mem_map.mp hm
      obtain ⟨_, -, rfl⟩ := Option.map_eq_some_iff.mp (Option.mem_toList.mp hs)
      apply (Lookup.keeps_ofResult answer).bind
      intro infos
      cases Definition.candidates name infos with
      | nil => exact Lookup.keeps_pure none
      | cons info rest => exact (hr.uncounted info.uri).bind fun _ => Lookup.keeps_pure _
    · cases List.mem_singleton.mp hm
      exact Lookup.keeps_ofResult _

theorem Numbered.ask_eq {name : String} {s s' : Session σ}
    (h : asked s.host name = asked s'.host name) : (r.ask name s).1 = (r.ask name s').1 := by
  obtain ⟨symbols, hsymbols, hask⟩ | hask := r.ask_cases name
  · rw [hask, hask, hr.reply symbols hsymbols, hr.reply symbols hsymbols, h]
  · rw [hask, hask]

/-- A question does not count for other names. -/
theorem Numbered.ask_other {name other : String} (hne : other ≠ name) (s : Session σ) :
    asked (r.ask name s).2.host other = asked s.host other := by
  obtain ⟨symbols, hsymbols, hask⟩ | hask := r.ask_cases name
  · rw [hask, hr.counted symbols hsymbols, if_neg hne, Nat.add_zero]
  · rw [hask]

/-- What is left of a lookup comes to the same whenever it is done. -/
theorem Numbered.resumed (name : String) (d : Document) (s s' : Session σ) :
    (((r.answered (r.ask name s).1).resolve name d).run s').1 = ((r.resolve name d).run s).1 := by
  rw [r.resolve_ask]
  exact ((hr.answered_steady (r.ask name s).1).resolve name d).same s' _

theorem Numbered.resolve_eq {name : String} {s s' : Session σ}
    (h : asked s.host name = asked s'.host name) (d : Document) :
    ((r.resolve name d).run s).1 = ((r.resolve name d).run s').1 := by
  rw [← hr.resumed name d s s, ← hr.resumed name d s' s, hr.ask_eq h]

end Resolver

namespace Pipeline

variable {σ : Type} {p : Pipeline σ} {r : Resolver σ}

theorem resolveOne_ask (hp : p.resolve = r.resolve) (d : Document) (name : String)
    (s : Session σ) : (p.resolveOne d name).run s =
      ({ p with resolve := (r.answered (r.ask name s).1).resolve }.resolveOne d name).run
        (r.ask name s).2 := by
  simp only [resolveOne, Lookup.run_bind, Lookup.run_attempt, hp, r.resolve_ask name d s]

variable {asked : σ → String → Nat} {replies : String → Nat → Except Failure (List SymbolInfo)}
  {store : String → Except Failure Document} (hr : r.Numbered asked replies store)

include hr

theorem resumed_run (hp : p.resolve = r.resolve) (d : Document) (name : String)
    (s s' : Session σ) :
    (({ p with resolve := (r.answered (r.ask name s).1).resolve }.resolveOne d name).run s').1 =
      .ok (p.answer d (name, s)) := by
  rw [resolveOne_run, answer, answer, Lookup.value?, Lookup.value?, hp]
  exact congrArg (fun outcome => Except.ok outcome.toOption.join) (hr.resumed name d s s')

theorem resumed_keeps (answer : Except Failure (List SymbolInfo)) (d : Document) (name : String) :
    ({ p with resolve := (r.answered answer).resolve }.resolveOne d name).Keeps asked := by
  apply (hr.answered_keeps answer name d).attempt.bind
  intro outcome
  cases outcome with
  | ok found => exact Lookup.keeps_pure found
  | error f => exact (Lookup.keeps_note _).bind fun _ => Lookup.keeps_pure none

/-- The lookups of other names do not change what is found. -/
theorem answers_apart (hp : p.resolve = r.resolve) (d : Document) {names : List String}
    (hn : names.Nodup) {s s₀ : Session σ}
    (h : ∀ name ∈ names, asked s.host name = asked s₀.host name) :
    (p.lookups d names s).filterMap (p.answer d) =
      names.filterMap fun name => p.answer d (name, s₀) := by
  induction names generalizing s with
  | nil => rfl
  | cons name names ih =>
    obtain ⟨hnew, hn⟩ := List.nodup_cons.mp hn
    have hfirst : p.answer d (name, s) = p.answer d (name, s₀) := by
      rw [answer, answer, Lookup.value?, Lookup.value?, hp]
      exact congrArg (fun outcome => outcome.toOption.join)
        (hr.resolve_eq (h name List.mem_cons_self) d)
    have hrest := ih hn (s := ((p.resolveOne d name).run s).2) fun other hother => ?_
    · rw [lookups, List.filterMap_cons, List.filterMap_cons, hfirst, hrest]
    · rw [resolveOne_ask hp, resumed_keeps hr]
      exact (hr.ask_other (ne_of_mem_of_not_mem hother hnew) s).trans
        (h other (List.mem_cons_of_mem name hother))

end Pipeline

namespace Scripted

/-- The questions for a name so far. -/
def Asked.count (asked : Asked) (name : String) : Nat := (asked.names.lookup name).getD 0

/-- What a script has for the `n`-th question for a name. -/
def answerTo (script : String → List IndexReply) (name : String) (n : Nat) :
    Except Failure (List SymbolInfo) :=
  match reply? (script name) n with
  | some (.symbols infos selection) => .ok (select name infos selection)
  | some (.failure f) => .error f
  | none => .ok []

theorem lookup_filter_ne {name other : String} (hne : other ≠ name) (counts : List (String × Nat)) :
    (counts.filter (·.1 != name)).lookup other = counts.lookup other := by
  induction counts with
  | nil => rfl
  | cons count counts ih =>
    by_cases hname : count.1 = name
    · have hother : (other == count.1) = false := by simpa [hname] using hne
      rw [List.filter_cons_of_neg (by simpa using hname), ih, List.lookup_cons, hother]
    · rw [List.filter_cons_of_pos (by simpa using hname), List.lookup_cons, List.lookup_cons, ih]

theorem askName_count (name : String) (asked : Asked) (other : String) :
    (askName name asked).2.count other = asked.count other + if other = name then 1 else 0 := by
  by_cases hother : other = name
  · subst hother
    simp [askName, Asked.count]
  · have hne : (other == name) = false := by simpa using hother
    simp only [askName, Asked.count, List.lookup_cons, hne, lookup_filter_ne hother, hother,
      ↓reduceIte, Nat.add_zero]

theorem symbols_run (script : String → List IndexReply) (name : String) (s : Session Asked) :
    (symbols script name).run s =
      (answerTo script name (s.host.count name), ⟨(askName name s.host).2, s.log⟩) := by
  change ((next (askName name)) >>= _).run s = _
  rw [Lookup.run_bind]
  change (match reply? (script name) (s.host.count name) with
    | some (.symbols infos selection) => (pure (select name infos selection) : Lookup Asked _)
    | some (.failure f) => Lookup.fail f
    | none => pure []).run _ = _
  unfold answerTo
  rcases reply? (script name) (s.host.count name) with _ | ⟨infos, selection⟩ | f <;> rfl

/-- A script numbers the questions. -/
theorem numbered (script : String → List IndexReply) (shelf : Shelf) :
    (⟨openFrom shelf, some (symbols script)⟩ : Resolver Asked).Numbered Asked.count
      (answerTo script) shelf.open_ where
  reply := by
    rintro _ ⟨⟩ name s
    rw [symbols_run]
  counted := by
    rintro _ ⟨⟩ name s other
    rw [symbols_run]
    exact askName_count name s.host other
  opened uri s := Lookup.run_ofResult _ s
  uncounted uri := Lookup.keeps_ofResult _

end Scripted

end Callees

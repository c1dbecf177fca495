import Callees.Pipeline.Script
import Callees.Proofs.Traffic

namespace Callees

namespace Update

variable {σ : Type} (p : Pipeline σ) (u : Update σ) (desk : Desk σ)

theorem advance_entered (hu : u.stage = .entered) :
    (u.advance p desk).2 = (p.check u.document u.position u.ticket desk).2 ∧
      ∀ scope, (p.check u.document u.position u.ticket desk).1 = .ok (scope, true) →
        (u.advance p desk).1 =
          { u with found := scope.map (Scope.identity u.document), stage := .accepted } := by
  unfold advance
  rw [hu]
  rcases hc : p.check u.document u.position u.ticket desk with ⟨f | ⟨scope, goesOn⟩, desk'⟩
  · simp [hc]
  · cases goesOn <;> simp [hc]

theorem advance_accepted (hu : u.stage = .accepted) :
    (u.advance p desk).2 = (p.compute u.document u.position desk).2 ∧
      ∀ report, (p.compute u.document u.position desk).1 = .ok report →
        (u.advance p desk).1 = { u with stage := .computed report } := by
  unfold advance
  rw [hu]
  rcases hc : p.compute u.document u.position desk with ⟨f | report, desk'⟩ <;> simp [hc]

theorem advance_computed {report : Report} (hu : u.stage = .computed report) :
    (u.advance p desk).2 = (deliver u.receive u.document u.ticket report desk).2 := by
  unfold advance
  rw [hu]
  rfl

end Update

namespace Traffic

variable {σ : Type} {p : Pipeline σ}

/-- The events that were there before are as they were. -/
def Extends (s s' : Traffic σ) : Prop :=
  ∀ (i : Nat) (u : Update σ), s.updates[i]? = some u → s'.updates[i]? = some u

theorem Extends.trans {s s' s'' : Traffic σ} (h : s.Extends s') (h' : s'.Extends s'') :
    s.Extends s'' := fun i u hu => h' i u (h i u hu)

/-- What happens at the desk is what some moves do to it, none of them of an event that was there
before. -/
def Interleaved (p : Pipeline σ) {α : Type} (m : AtDesk σ α) : Prop :=
  ∀ s : Traffic σ, ∃ moves,
    (s.run p moves).desk = (m s.desk).2 ∧ s.Extends (s.run p moves)

variable {α β : Type}

theorem interleaved_pure (a : α) : Interleaved p (pure a : AtDesk σ α) :=
  fun _ => ⟨[], rfl, fun _ _ h => h⟩

theorem interleaved_lookup (m : Lookup σ α) : Interleaved p (AtDesk.lookup m) :=
  fun _ => ⟨[.elsewhere fun session => (m.run session).2], rfl, fun _ _ h => h⟩

theorem interleaved_forget : Interleaved p (Update.forget : AtDesk σ Unit) :=
  fun _ => ⟨[.reset], rfl, fun _ _ h => h⟩

theorem interleaved_read : Interleaved p (AtDesk.tickets fun t => (t, t) : AtDesk σ Tickets) :=
  fun _ => ⟨[], rfl, fun _ _ h => h⟩

theorem Interleaved.bind {m : AtDesk σ α} {f : α → AtDesk σ β} (hm : Interleaved p m)
    (hf : ∀ a, Interleaved p (f a)) : Interleaved p (m >>= f) := by
  intro s
  obtain ⟨first, hd, he⟩ := hm s
  obtain ⟨second, hd', he'⟩ := hf (m s.desk).1 (s.run p first)
  refine ⟨first ++ second, ?_, ?_⟩
  · rw [run_append, hd', hd]
    rfl
  · rw [run_append]
    exact he.trans he'

theorem Interleaved.andThen {m : AtDesk σ (Except Failure α)}
    {f : α → AtDesk σ (Except Failure β)} (hm : Interleaved p m) (hf : ∀ a, Interleaved p (f a)) :
    Interleaved p (m.andThen f) := by
  apply hm.bind
  intro result
  cases result with
  | ok a => exact hf a
  | error failure => exact interleaved_pure _

/-- From here on, what happens at the desk is what some moves do to it, and no other event than one is
changed by them. -/
def Continues (p : Pipeline σ) (s : Traffic σ) (k : Nat) {α : Type} (m : AtDesk σ α) : Prop :=
  ∃ moves, (s.run p moves).desk = (m s.desk).2 ∧
    ∀ i w, i ≠ k → s.updates[i]? = some w → (s.run p moves).updates[i]? = some w

section

variable {s : Traffic σ} {k : Nat} {u : Update σ}

theorem continues_pure (a : α) : Continues p s k (pure a : AtDesk σ α) :=
  ⟨[], rfl, fun _ _ _ h => h⟩

/-- A step of the event itself, and what comes after it. -/
theorem Continues.advance {m : AtDesk σ (Except Failure α)} {f : α → AtDesk σ (Except Failure β)}
    (hdesk : (s.move p (.advance k)).desk = (m s.desk).2)
    (hf : ∀ a, (m s.desk).1 = .ok a → Continues p (s.move p (.advance k)) k (f a)) :
    Continues p s k (m.andThen f) := by
  rcases hm : m s.desk with ⟨failure | a, desk⟩
  · refine ⟨[.advance k], ?_, ?_⟩
    · rw [AtDesk.andThen_error hm]
      exact hdesk.trans (congrArg Prod.snd hm)
    · intro i w hi hw
      exact (move_advance_ne hi).trans hw
  · obtain ⟨moves, hrest, hother⟩ := hf a (congrArg Prod.fst hm)
    refine ⟨.advance k :: moves, ?_, ?_⟩
    · rw [AtDesk.andThen_ok hm]
      rw [hdesk, hm] at hrest
      exact hrest
    · intro i w hi hw
      exact hother i w hi ((move_advance_ne hi).trans hw)

/-- What happens in a gap of the event, and what comes after it. -/
theorem Interleaved.continues {m : AtDesk σ (Except Failure α)}
    {f : α → AtDesk σ (Except Failure β)} (hm : Interleaved p m) (hu : s.updates[k]? = some u)
    (hf : ∀ a s', s'.updates[k]? = some u → Continues p s' k (f a)) :
    Continues p s k (m.andThen f) := by
  obtain ⟨first, hdesk, hextends⟩ := hm s
  rcases hr : m s.desk with ⟨failure | a, desk⟩
  · refine ⟨first, ?_, fun i w _ hw => hextends i w hw⟩
    rw [AtDesk.andThen_error hr]
    exact hdesk.trans (congrArg Prod.snd hr)
  · obtain ⟨rest, hrest, hother⟩ := hf a (s.run p first) (hextends k u hu)
    refine ⟨first ++ rest, ?_, ?_⟩
    · rw [run_append, hrest, hdesk, AtDesk.andThen_ok hr, hr]
    · intro i w hi hw
      rw [run_append]
      exact hother i w hi (hextends i w hw)

/-- The rest of an event that has been accepted. -/
theorem continues_conclude (hu : s.updates[k]? = some u) (hstage : u.stage = .accepted) :
    Continues p s k (p.conclude u.receive u.document u.position u.ticket) := by
  obtain ⟨hdesk, hcomputed⟩ := u.advance_accepted p s.desk hstage
  apply Continues.advance ((move_advance_eq hu).1.trans hdesk)
  intro report hreport
  have hv := move_advance_self (p := p) hu
  rw [hcomputed report hreport] at hv
  refine ⟨[.advance k], (move_advance_eq hv).1.trans (Update.advance_computed p _ _ rfl), ?_⟩
  intro i w hi hw
  exact (move_advance_ne hi).trans hw

end

/-- An event that holds its ticket goes on with the moves of its two gaps between its own steps. -/
theorem Interleaved.proceed {before : AtDesk σ (Except Failure α)}
    {during : AtDesk σ (Except Failure β)} (hb : Interleaved p before) (hd : Interleaved p during)
    {s : Traffic σ} {k : Nat} {u : Update σ} (hu : s.updates[k]? = some u)
    (hstage : u.stage = .entered) :
    Continues p s k (p.proceed u.receive before during u.document u.position u.ticket) := by
  rw [Pipeline.proceed]
  apply hb.continues hu
  intro first s1 hu
  obtain ⟨hdesk, haccepted⟩ := u.advance_entered p s1.desk hstage
  apply Continues.advance ((move_advance_eq hu).1.trans hdesk)
  rintro ⟨scope, goesOn⟩ hchecked
  cases goesOn with
  | false => exact continues_pure _
  | true =>
    have hv := move_advance_self (p := p) hu
    rw [haccepted scope hchecked] at hv
    apply hd.continues hv
    intro second s2 hv
    obtain ⟨moves, hconcluded, hother⟩ := continues_conclude (p := p) hv rfl
    exact ⟨moves, hconcluded.trans (AtDesk.andThen_pure_desk ..).symm, hother⟩

theorem Interleaved.update {before : AtDesk σ (Except Failure α)}
    {during : AtDesk σ (Except Failure β)} (hb : Interleaved p before) (hd : Interleaved p during)
    (receive : Report → Lookup σ Unit) (d : Document) (at_ : Position) :
    Interleaved p (p.update receive before during d at_) := by
  intro s
  let arrived := s.move p (.arrive d at_ receive)
  have hu : arrived.updates[s.updates.length]? =
      some ⟨d, at_, receive, s.tickets.next, none, .entered⟩ := List.getElem?_concat_length
  obtain ⟨moves, hdesk, hother⟩ := hb.proceed hd hu rfl
  refine ⟨.arrive d at_ receive :: moves, hdesk, ?_⟩
  intro i w hw
  have hi := (List.getElem?_eq_some_iff.mp hw).1
  exact hother i w (Nat.ne_of_lt hi) ((List.getElem?_append_left hi).trans hw)

end Traffic

namespace Pipeline

variable {σ : Type} (p : Pipeline σ)

mutual

theorem perform_interleaved : ∀ e : CursorEvent, Traffic.Interleaved p (p.perform e)
  | .run d at_ => by
    unfold perform
    exact (Traffic.interleaved_lookup _).bind fun _ => Traffic.interleaved_pure _
  | .locate d at_ => by
    unfold perform
    exact (Traffic.interleaved_lookup _).bind fun _ => Traffic.interleaved_pure _
  | .callSites d scope => by
    unfold perform
    exact Traffic.interleaved_pure _
  | .resolveAll d names => by
    unfold perform
    exact (Traffic.interleaved_lookup _).bind fun _ => Traffic.interleaved_pure _
  | .reset => by
    unfold perform
    exact Traffic.interleaved_forget.bind fun _ => Traffic.interleaved_pure _
  | .senseless f => by
    unfold perform
    exact Traffic.interleaved_pure _
  | .update d at_ before during => by
    unfold perform
    apply Traffic.Interleaved.andThen
    · exact (performAll_interleaved before).update (performAll_interleaved during) _ d at_
    · intro _
      exact Traffic.interleaved_read.bind fun _ => Traffic.interleaved_pure _

theorem performAll_interleaved : ∀ es : List CursorEvent, Traffic.Interleaved p (p.performAll es)
  | [] => by
    unfold performAll
    exact Traffic.interleaved_pure _
  | e :: es => by
    unfold performAll
    exact (perform_interleaved e).andThen fun _ =>
      (performAll_interleaved es).andThen fun _ => Traffic.interleaved_pure _

end

end Pipeline

end Callees

import Callees.Proofs.Traffic
import Mathlib.Data.List.Induction

namespace Callees

/-- Whether the event has returned without a failure. -/
def Update.Stage.returned : Update.Stage → Bool
  | .ended (.ok _) => true
  | _ => false

namespace Update

variable {σ : Type} {p : Pipeline σ}

/-- A step that records a scope remembers the one that the event has found. -/
theorem Advanced.remembers {desk : Desk σ} {u v : Update σ} {t : Tickets} {out : Option Publication}
    (ha : Advanced p desk u v t out) (hr : t.recorded ≠ desk.tickets.recorded) :
    t.last = v.found := by
  cases ha with
  | @accepted scope =>
    rcases Int.lt_or_le (Tickets.rank desk.tickets.recorded) u.ticket with h | h
    · rw [Tickets.record_newer h]
    · rw [Tickets.record_older h] at hr
      exact absurd rfl hr
  | _ => exact absurd rfl hr

theorem Advanced.found {desk : Desk σ} {u v : Update σ} {t : Tickets} {out : Option Publication}
    (ha : Advanced p desk u v t out) (hs : u.stage ≠ .entered) : v.found = u.found := by
  cases ha with
  | skipped entered | accepted entered => exact absurd entered hs
  | _ => rfl

theorem Sound.not_entered {t : Tickets} {u : Update σ} (hs : u.Sound t)
    (hr : t.recorded = some u.ticket) : u.stage ≠ .entered := by
  intro he
  simp only [Sound, he] at hs
  exact hs.1 hr

/-- What an event has found is what its report is about. -/
structure Faithful (p : Pipeline σ) (u : Update σ) : Prop where
  accepted : u.stage = .accepted → ∃ scope,
    (∀ session, ((p.locate u.document u.position).run session).1 = .ok scope) ∧
      u.found = scope.map (Scope.identity u.document)
  computed : ∀ report, u.stage = .computed report →
    u.found = report.scope.map (Scope.identity u.document)

theorem Faithful.of_entered {u : Update σ} (hu : u.stage = .entered) : u.Faithful p where
  accepted h := by cases hu.symm.trans h
  computed report h := by cases hu.symm.trans h

theorem Advanced.faithful {desk : Desk σ} {u v : Update σ} {t : Tickets} {out : Option Publication}
    (ha : Advanced p desk u v t out) (hl : p.locator.Steady) (hu : u.Faithful p) :
    v.Faithful p := by
  cases ha with
  | @accepted scope _ located =>
    have hsteady := hl.locate u.document u.position
    exact ⟨fun _ => ⟨scope, fun session => (hsteady.same session desk.session).trans located, rfl⟩,
      nofun⟩
  | @computed report accepted ran =>
    refine ⟨nofun, fun _ h => ?_⟩
    cases h
    obtain ⟨scope, hs, hf⟩ := hu.accepted accepted
    have he : Except.ok scope = Except.ok report.scope :=
      (hs desk.session).symm.trans (Pipeline.run_scope ran)
    cases he
    exact hf
  | idle => exact hu
  | _ => exact ⟨nofun, nofun⟩

/-- A step that gives a report out ends its event, and well unless the receiver fails. -/
theorem Advanced.gives {desk : Desk σ} {u v : Update σ} {t : Tickets} {b : Publication}
    (ha : Advanced p desk u v t (some b)) :
    b.ticket = u.ticket ∧ ∃ outcome, v.stage = .ended outcome ∧ outcome.isOk = b.received := by
  cases ha <;> exact ⟨rfl, _, rfl, rfl⟩

/-- What a step gives out is about what its event has found. -/
theorem Advanced.identity {desk : Desk σ} {u v : Update σ} {t : Tickets} {b : Publication}
    (ha : Advanced p desk u v t (some b)) (hu : u.Faithful p) : v.found = b.identity := by
  cases ha with
  | published computed | refused computed => exact hu.computed _ computed

theorem Advanced.of_ended {desk : Desk σ} {u v : Update σ} {t : Tickets} {out : Option Publication}
    {outcome : Except Failure Outcome} (ha : Advanced p desk u v t out)
    (hu : u.stage = .ended outcome) : v = u := by
  cases ha with
  | idle => rfl
  | lost h | skipped h | accepted h | failed h | computed h | dropped h | published h | refused h =>
    cases h.symm.trans hu

end Update

namespace Traffic

variable {σ : Type} {p : Pipeline σ}

/-- No event is under way, and none has failed. -/
def Settled (s : Traffic σ) : Prop := ∀ u ∈ s.updates, u.stage.returned = true

instance (s : Traffic σ) : Decidable s.Settled :=
  inferInstanceAs (Decidable (∀ u ∈ s.updates, u.stage.returned = true))

/-- No reset comes after the step that recorded what is recorded at the end. Each such step records
another ticket, so one has come after the reset if the ticket differs. -/
def Remembers (p : Pipeline σ) (s : Traffic σ) (moves : List (Move σ)) : Prop :=
  ∀ before after, moves = before ++ .reset :: after →
    ∀ n, (s.run p before).tickets.recorded = some n → (s.run p moves).tickets.recorded ≠ some n

theorem Ordered.recorded_lt_length {s : Traffic σ} (hs : s.Ordered) {n : Nat}
    (hr : s.tickets.recorded = some n) : n < s.updates.length := by
  have hlt := hs.recorded_lt
  rw [hr, hs.next] at hlt
  exact Int.ofNat_lt.mp hlt

theorem Ordered.getElem?_ticket {s : Traffic σ} (hs : s.Ordered) {u : Update σ}
    (hu : u ∈ s.updates) : s.updates[u.ticket]? = some u := by
  obtain ⟨i, hi⟩ := List.mem_iff_getElem?.mp hu
  rwa [hs.numbered hi]

/-- The scope that is remembered is the one that the recorded event has found. -/
def Kept (s : Traffic σ) : Prop :=
  ∀ n u, s.tickets.recorded = some n → s.updates[n]? = some u → s.tickets.last = u.found

theorem arrive_kept {s : Traffic σ} (hs : s.Ordered) (hk : s.Kept) (d : Document) (at_ : Position)
    (receive : Report → Lookup σ Unit) : (s.move p (.arrive d at_ receive)).Kept := by
  intro n u hr hu
  change s.tickets.recorded = some n at hr
  exact hk n u hr ((List.getElem?_append_left (hs.recorded_lt_length hr)).symm.trans hu)

/-- A step that records its own scope remembers it, whatever was remembered before. -/
theorem advance_kept {s : Traffic σ} (hs : s.Ordered) (i : Nat)
    (hk : s.Kept ∨ (s.move p (.advance i)).tickets.recorded ≠ s.tickets.recorded) :
    (s.move p (.advance i)).Kept := by
  cases hu : s.updates[i]? with
  | none =>
    rw [move_advance_none hu] at hk ⊢
    exact hk.resolve_right (fun h => h rfl)
  | some u =>
    obtain ⟨v, t, session, out, ha, he⟩ := move_advance (p := p) hu
    rw [he] at hk ⊢
    have hi := hs.numbered hu
    have hlen : i < s.updates.length := (List.getElem?_eq_some_iff.mp hu).1
    have hsound := hs.sound u (List.mem_of_getElem? hu)
    intro n w hr hw
    change t.recorded = some n at hr
    change s.Kept ∨ t.recorded ≠ s.tickets.recorded at hk
    change t.last = w.found
    change (s.updates.set i v)[n]? = some w at hw
    by_cases hc : t.recorded = s.tickets.recorded
    · have hk := hk.resolve_right (fun h => h hc)
      rw [ha.moved.last hc]
      by_cases hin : i = n
      · subst hin
        rw [List.getElem?_set_self hlen] at hw
        cases hw
        have hu' := hsound.not_entered (hi.symm ▸ hc ▸ hr)
        rw [ha.found hu']
        exact hk i u (hc ▸ hr) hu
      · rw [List.getElem?_set_ne hin] at hw
        exact hk n w (hc ▸ hr) hw
    · have hn : some i = some n :=
        (hi ▸ (ha.moved.recorded.resolve_left hc)).symm.trans hr
      cases hn
      rw [List.getElem?_set_self hlen] at hw
      cases hw
      exact ha.remembers hc

theorem run_kept (session : Session σ) (moves : List (Move σ))
    (hm : Remembers p (start session) moves) : ((start session).run p moves).Kept := by
  induction moves using List.reverseRecOn with
  | nil => intro n u hr; cases hr
  | append_singleton moves m ih =>
    have hs := run_ordered (p := p) (start_ordered session) moves
    have hkept (he : ((start session).run p (moves ++ [m])).tickets.recorded =
        ((start session).run p moves).tickets.recorded) :
        ((start session).run p moves).Kept := by
      apply ih
      intro before after hsplit n hn
      rw [← he]
      exact hm before (after ++ [m]) (by rw [hsplit]; simp) n hn
    rw [run_concat] at hkept ⊢
    cases m with
    | arrive d at_ receive => exact arrive_kept hs (hkept rfl) d at_ receive
    | advance i =>
      apply advance_kept hs
      by_cases hc : (((start session).run p moves).move p (.advance i)).tickets.recorded =
          ((start session).run p moves).tickets.recorded
      · exact .inl (hkept hc)
      · exact .inr hc
    | reset =>
      intro n u hr
      have hne := hm moves [] rfl n hr
      rw [run_concat] at hne
      exact absurd hr hne
    | elsewhere f => exact hkept rfl

/-- What holds of an event that has come in, and is kept by each of its steps, holds of all events. -/
theorem run_updates (session : Session σ) (moves : List (Move σ)) {P : Update σ → Prop}
    (hnew : ∀ u, u.stage = .entered → P u)
    (hstep : ∀ desk u v t out, Update.Advanced p desk u v t out → P u → P v) :
    ∀ u ∈ ((start session).run p moves).updates, P u := by
  induction moves using List.reverseRecOn with
  | nil => simp [start, run]
  | append_singleton moves m ih =>
    rw [run_concat]
    intro w hw
    cases m with
    | arrive d at_ receive =>
      rcases List.mem_append.mp hw with hw | hw
      · exact ih w hw
      · cases List.mem_singleton.mp hw
        exact hnew _ rfl
    | advance i =>
      cases hu : ((start session).run p moves).updates[i]? with
      | none =>
        rw [move_advance_none hu] at hw
        exact ih w hw
      | some u =>
        obtain ⟨v, t, session', out, ha, he⟩ := move_advance (p := p) hu
        rw [he] at hw
        rcases mem_set hw with rfl | ⟨j, -, hw⟩
        · exact hstep _ u _ t out ha (ih u (List.mem_of_getElem? hu))
        · exact ih w (List.mem_of_getElem? hw)
    | reset => exact ih w hw
    | elsewhere f => exact ih w hw

/-- Every report that was given out has an event that has ended since, and stays as it was then. -/
theorem run_given (session : Session σ) (moves : List (Move σ)) {R : Update σ → Publication → Prop}
    (hstep : ∀ moves u v t b, u ∈ ((start session).run p moves).updates →
      Update.Advanced p ((start session).run p moves).desk u v t (some b) → R v b) :
    ∀ b ∈ ((start session).run p moves).given, ∃ u outcome,
      ((start session).run p moves).updates[b.ticket]? = some u ∧ u.stage = .ended outcome ∧
        outcome.isOk = b.received ∧ R u b := by
  induction moves using List.reverseRecOn with
  | nil => simp [start, run]
  | append_singleton moves m ih =>
    have hs := run_ordered (p := p) (start_ordered session) moves
    rw [run_concat]
    intro b hb
    cases m with
    | arrive d at_ receive =>
      obtain ⟨u, outcome, hu, he⟩ := ih b hb
      have hlen := (List.getElem?_eq_some_iff.mp hu).1
      exact ⟨u, outcome, (List.getElem?_append_left hlen).trans hu, he⟩
    | advance i =>
      cases hu : ((start session).run p moves).updates[i]? with
      | none =>
        rw [move_advance_none hu] at hb ⊢
        exact ih b hb
      | some u =>
        obtain ⟨v, t, session', out, ha, he⟩ := move_advance (p := p) hu
        have hlen := (List.getElem?_eq_some_iff.mp hu).1
        rw [he] at hb ⊢
        change ∃ w outcome, (List.set _ i v)[b.ticket]? = some w ∧ _
        rcases List.mem_append.mp hb with hb | hb
        · obtain ⟨w, outcome, hw, hend, hrest⟩ := ih b hb
          by_cases hij : i = b.ticket
          · subst hij
            cases hu.symm.trans hw
            cases ha.of_ended hend
            exact ⟨u, outcome, List.getElem?_set_self hlen, hend, hrest⟩
          · exact ⟨w, outcome, (List.getElem?_set_ne hij).trans hw, hend, hrest⟩
        · cases Option.mem_toList.mp hb
          obtain ⟨hticket, outcome, hend, hok⟩ := ha.gives
          rw [hticket, hs.numbered hu]
          exact ⟨v, outcome, List.getElem?_set_self hlen, hend, hok,
            hstep moves u v t b (List.mem_of_getElem? hu) ha⟩
    | reset => exact ih b hb
    | elsewhere f => exact ih b hb

/-- Every report is about what its event has found, on its way and after it was given out. -/
structure Faithful (p : Pipeline σ) (s : Traffic σ) : Prop where
  updates : ∀ u ∈ s.updates, u.Faithful p
  given : ∀ b ∈ s.given, ∃ u outcome,
    s.updates[b.ticket]? = some u ∧ u.stage = .ended outcome ∧ u.found = b.identity

theorem run_faithful (session : Session σ) (moves : List (Move σ)) (hl : p.locator.Steady) :
    ((start session).run p moves).Faithful p := by
  have hupdates (moves : List (Move σ)) :
      ∀ u ∈ ((start session).run p moves).updates, u.Faithful p :=
    run_updates session moves (P := Update.Faithful p) (fun u hu => .of_entered hu)
      fun desk u v t out ha hu => ha.faithful hl hu
  refine ⟨hupdates moves, fun b hb => ?_⟩
  obtain ⟨u, outcome, hu, hend, -, hfound⟩ := run_given session moves
    (R := fun v b => v.found = b.identity)
    (fun moves u v t b hu ha => ha.identity (hupdates moves u hu)) b hb
  exact ⟨u, outcome, hu, hend, hfound⟩

theorem Ordered.not_dropped {s : Traffic σ} (hs : s.Ordered) {u : Update σ} (hu : u ∈ s.updates)
    (hr : s.tickets.recorded = some u.ticket) :
    s.tickets.stale u.ticket = false ∧ u.stage ≠ .ended (.ok .stale) := by
  constructor
  · apply Bool.eq_false_iff.mpr
    intro hst
    have hle := hs.published_le
    rw [Tickets.stale_iff] at hst
    rw [hr, Tickets.rank_some] at hle
    omega
  · intro hst
    have hsound := hs.sound u hu
    simp only [Update.Sound, hst] at hsound
    exact hsound.1 hr

theorem Settled.ended {s : Traffic σ} (hq : s.Settled) {u : Update σ} (hu : u ∈ s.updates) :
    ∃ outcome, u.stage = .ended (.ok outcome) := by
  have hr := hq u hu
  unfold Update.Stage.returned at hr
  split at hr
  · exact ⟨_, ‹_›⟩
  · cases hr

/-- With nothing under way the recorded event has neither been skipped nor dropped, so its report is
the one that was published last. -/
theorem Ordered.settled {s : Traffic σ} (hs : s.Ordered) (hq : s.Settled) :
    s.tickets.published = s.tickets.recorded := by
  apply Tickets.rank_inj
  apply Int.le_antisymm hs.published_le
  cases hr : s.tickets.recorded with
  | none => exact Tickets.rank_ge _
  | some n =>
    obtain ⟨u, hu⟩ : ∃ u, s.updates[n]? = some u :=
      ⟨_, List.getElem?_eq_getElem (hs.recorded_lt_length hr)⟩
    have hn := hs.numbered hu
    have hm := List.mem_of_getElem? hu
    have hsound := hs.sound u hm
    obtain ⟨outcome, he⟩ := hq.ended hm
    cases outcome with
    | unchanged =>
      simp only [Update.Sound, he] at hsound
      exact absurd (hn ▸ hr) hsound.1
    | stale => exact absurd he (hs.not_dropped hm (hn ▸ hr)).2
    | published report =>
      simp only [Update.Sound, he] at hsound
      rw [Tickets.rank_some, ← hn]
      exact hsound

theorem Ordered.last_given {s : Traffic σ} (hs : s.Ordered) {n : Nat}
    (hp : s.tickets.published = some n) : ∃ b, s.given.getLast? = some b ∧ b.ticket = n := by
  have hl := hs.given_last
  rw [hp, List.getLast?_map] at hl
  exact Option.map_eq_some_iff.mp hl

theorem Ordered.none_given {s : Traffic σ} (hs : s.Ordered) (hp : s.tickets.published = none) :
    s.given.getLast? = none := by
  have hl := hs.given_last
  rw [hp, List.getLast?_map] at hl
  exact Option.map_eq_none_iff.mp hl

/-- The tickets in every state that events, resets and failures can lead to. While one event is the
recorded one its report is not dropped. Once all have returned, what is remembered is what was
published last. -/
theorem tickets_in_order (p : Pipeline σ) (session : Session σ) (moves : List (Move σ)) :
    let s := (start session).run p moves
    (Tickets.rank s.tickets.published ≤ Tickets.rank s.tickets.recorded ∧
      Tickets.rank s.tickets.recorded < s.tickets.next) ∧
    (s.given.map Publication.ticket).Pairwise (· < ·) ∧
    (∀ u ∈ s.updates, s.tickets.recorded = some u.ticket →
      s.tickets.stale u.ticket = false ∧ u.stage ≠ .ended (.ok .stale)) ∧
    (s.Settled → s.tickets.published = s.tickets.recorded ∧
      (p.locator.Steady → Remembers p (start session) moves →
        s.tickets.last = s.given.getLast?.bind Publication.identity)) := by
  intro s
  have hs : s.Ordered := run_ordered (start_ordered session) moves
  refine ⟨⟨hs.published_le, hs.recorded_lt⟩, hs.increasing, fun u hu => hs.not_dropped hu, ?_⟩
  intro hq
  have hpub := hs.settled hq
  refine ⟨hpub, fun hl hm => ?_⟩
  have hkept : s.Kept := run_kept session moves hm
  have hf : s.Faithful p := run_faithful session moves hl
  cases hr : s.tickets.recorded with
  | none => rw [hs.blank hr, hs.none_given (hpub.trans hr), Option.bind_none]
  | some n =>
    obtain ⟨b, hb, hbn⟩ := hs.last_given (hpub.trans hr)
    obtain ⟨u, _, hu, -, hfound⟩ := hf.given b (List.mem_of_getLast? hb)
    rw [hb, Option.bind_some, ← hfound]
    exact hkept n u hr (hbn ▸ hu)

/-- A pipeline that finds one function on line 0 and another on line 1. -/
def twoFunctions : Pipeline Unit where
  locator := ⟨some fun _ => pure
    [.node "first" .function ⟨⟨0, 0⟩, ⟨1, 0⟩, by decide⟩ [],
      .node "second" .function ⟨⟨1, 0⟩, ⟨2, 0⟩, by decide⟩ []], 0⟩
  resolve := fun _ _ => pure none
  maxWorkers := 1
  ignoredNames := []

theorem twoFunctions_steady : twoFunctions.locator.Steady := by
  intro outline ho d
  cases ho
  exact Lookup.steady_pure _

/-- The cursor comes to a line of an empty document. -/
def cursorAt (line : Nat) : Move Unit :=
  .arrive ⟨"doc", "", none, 0⟩ ⟨line, 0⟩ fun _ => pure ()

/-- After a reset the event on line 1 overtakes the one on line 0, whose report is dropped. -/
def overtaking : List (Move Unit) :=
  [.reset, cursorAt 0, .advance 0, cursorAt 1, .advance 1, .advance 1, .advance 0, .advance 1,
    .advance 0]

theorem overtaking_remembers : Remembers twoFunctions (start ⟨(), []⟩) overtaking := by
  intro before after hsplit n hr
  cases before with
  | nil => cases hr
  | cons m before =>
    have hm : Move.reset ∈ overtaking.tail := by
      rw [hsplit]
      simp
    simp [overtaking, cursorAt] at hm

theorem tickets_in_order_overtaking :
    let s := (start ⟨(), []⟩).run twoFunctions overtaking
    s.Settled ∧ s.tickets.published = some 1 ∧
      s.tickets.last = some ⟨"doc", 0, ⟨⟨1, 0⟩, ⟨2, 0⟩, by decide⟩, "second"⟩ ∧
      s.tickets.last = s.given.getLast?.bind Publication.identity := by
  have hq : ((start ⟨(), []⟩).run twoFunctions overtaking).Settled := by decide +kernel
  obtain ⟨-, -, -, h⟩ := tickets_in_order twoFunctions ⟨(), []⟩ overtaking
  obtain ⟨-, hlast⟩ := h hq
  exact ⟨hq, by decide +kernel, by decide +kernel, hlast twoFunctions_steady overtaking_remembers⟩

end Traffic

end Callees

import Mathlib.Data.List.Basic
import Callees.Proofs.ProviderFailures
import Callees.Proofs.TicketOrder

namespace Callees

deriving instance DecidableEq for Update.Outcome, Update.Stage

/-- Whether the event has found its scope and has not ended. -/
def Update.Stage.underWay : Update.Stage → Bool
  | .accepted | .computed _ => true
  | _ => false

namespace Update

variable {σ : Type} {p : Pipeline σ}

/-- While an event is under way, it goes by the scope that is located for it. -/
def Located (p : Pipeline σ) (u : Update σ) : Prop :=
  u.stage.underWay = true → ∀ session scope,
    ((p.locate u.document u.position).run session).1 = .ok scope →
      u.found = scope.map (Scope.identity u.document)

theorem Advanced.located {desk : Desk σ} {u v : Update σ} {t : Tickets} {out : Option Publication}
    (ha : Advanced p desk u v t out) (hl : p.locator.Steady) (hu : u.Located p) : v.Located p := by
  cases ha with
  | @accepted scope entered located =>
    intro _ session scope' hscope
    have hsame := (hl.locate u.document u.position).same session desk.session
    cases hscope.symm.trans (hsame.trans located)
    rfl
  | computed accepted =>
    intro _
    apply hu
    rw [accepted]
    rfl
  | idle => exact hu
  | _ => nofun

/-- An event that looks for its scope is skipped if that is the remembered one, and goes on with it
otherwise. -/
theorem advance_looks {u : Update σ} (hu : u.stage = .entered) {desk : Desk σ}
    {scope : Option Scope}
    (hl : ((p.locate u.document u.position).run desk.session).1 = .ok scope) :
    (u.advance p desk).1.found = scope.map (Scope.identity u.document) ∧
    (u.advance p desk).1.stage =
      if desk.tickets.unchanged (scope.map (Scope.identity u.document)) then .ended (.ok .unchanged)
      else .accepted := by
  unfold advance
  rw [hu]
  cases hk : desk.tickets.unchanged (scope.map (Scope.identity u.document)) with
  | true =>
    simp only [Pipeline.check, accept, AtDesk.bind_at, AtDesk.lookup_at, AtDesk.tickets_at,
      AtDesk.note_at, AtDesk.pure_at, hl, hk, ↓reduceIte, Bool.false_eq_true, and_self]
  | false =>
    simp only [Pipeline.check, accept, AtDesk.bind_at, AtDesk.lookup_at, AtDesk.tickets_at,
      AtDesk.pure_at, hl, hk, Bool.false_eq_true, ↓reduceIte, and_self]

/-- So it does not fail. -/
theorem looks_without_failing (p : Pipeline σ) {u : Update σ} (hu : u.stage = .entered) (desk : Desk σ)
    (f : Failure) : (u.advance p desk).1.stage ≠ .ended (.error f) := by
  obtain ⟨scope, hscope⟩ := p.locator.locate_ok u.document u.position desk.session
  rw [(advance_looks hu hscope).2]
  split <;> nofun

end Update

namespace Traffic

variable {σ : Type} {p : Pipeline σ}

/-- After a reset nothing is remembered; otherwise it is what the recorded event has found. -/
def Recalls (s : Traffic σ) : Prop := s.tickets.last = none ∨ s.Kept

theorem run_recalls (session : Session σ) (moves : List (Move σ)) :
    ((start session).run p moves).Recalls := by
  induction moves using List.reverseRecOn with
  | nil => exact .inl rfl
  | append_singleton moves m ih =>
    have hs := run_ordered (p := p) (start_ordered session) moves
    rw [run_concat]
    cases m with
    | arrive d at_ receive => exact ih.imp id fun hk => arrive_kept hs hk d at_ receive
    | advance i =>
      by_cases hc : (((start session).run p moves).move p (.advance i)).tickets.recorded =
          ((start session).run p moves).tickets.recorded
      · refine ih.imp (fun hlast => ?_) fun hk => advance_kept hs i (.inl hk)
        cases hu : ((start session).run p moves).updates[i]? with
        | none => rwa [move_advance_none hu]
        | some u =>
          obtain ⟨v, t, session', out, ha, he⟩ := move_advance (p := p) hu
          rw [he] at hc ⊢
          exact (ha.moved.last hc).trans hlast
      · exact .inr (advance_kept hs i (.inr hc))
    | reset => exact .inl rfl
    | elsewhere f => exact ih

/-- The event that recorded the remembered scope, and what came of it. -/
structure Recorder (s : Traffic σ) (identity : Option Scope.Identity) (r : Update σ) : Prop where
  mem : r ∈ s.updates
  recorded : s.tickets.recorded = some r.ticket
  found : r.found = identity
  became : (∃ b, (s.given.filter Publication.received).getLast? = some b ∧ b.identity = identity) ∨
    r.stage.underWay = true ∨ ∃ f, r.stage = .ended (.error f)

/-- The report of the recorded event is the last one, once it is out. -/
theorem given_of_recorded (session : Session σ) (moves : List (Move σ)) (hl : p.locator.Steady)
    {r : Update σ} {report : Report} (hmem : r ∈ ((start session).run p moves).updates)
    (hr : ((start session).run p moves).tickets.recorded = some r.ticket)
    (hstage : r.stage = .ended (.ok (.published report))) :
    ∃ b, (((start session).run p moves).given.filter Publication.received).getLast? = some b ∧
      b.identity = r.found := by
  have hs := run_ordered (p := p) (start_ordered session) moves
  have hsound := hs.sound r hmem
  simp only [Update.Sound, hstage] at hsound
  have hle := hs.published_le
  rw [hr] at hle
  obtain ⟨b, hb, hticket⟩ := hs.last_given (Tickets.rank_inj (Int.le_antisymm hle hsound))
  obtain ⟨u, outcome, hu, hend, hok, hfound⟩ := run_given session moves
    (R := fun v b => v.found = b.identity)
    (fun moves u v t b hu ha => ha.identity ((run_faithful session moves hl).updates u hu))
    b (List.mem_of_getLast? hb)
  rw [hticket, hs.getElem?_ticket hmem] at hu
  cases hu
  cases hstage.symm.trans hend
  refine ⟨b, ?_, hfound.symm⟩
  obtain ⟨before, hsplit⟩ := List.getLast?_eq_some_iff.mp hb
  have hreceived : b.received = true := hok.symm
  rw [hsplit, List.filter_append, List.filter_singleton, hreceived]
  exact List.getLast?_concat

/-- The recorded event was neither skipped nor dropped. If it has returned, no report was given out
after its own. -/
theorem recorder_of_unchanged (session : Session σ) (moves : List (Move σ)) (hl : p.locator.Steady)
    {identity : Option Scope.Identity}
    (h : ((start session).run p moves).tickets.unchanged identity = true) :
    ∃ r, ((start session).run p moves).Recorder identity r := by
  have hs := run_ordered (p := p) (start_ordered session) moves
  obtain ⟨hsome, hlast⟩ := Bool.and_eq_true_iff.mp h
  replace hlast := beq_iff_eq.mp hlast
  have hne : ((start session).run p moves).tickets.last ≠ none := by
    rw [← hlast]
    exact Option.isSome_iff_ne_none.mp hsome
  have hkept := (run_recalls session moves).resolve_left hne
  obtain ⟨n, hr⟩ : ∃ n, ((start session).run p moves).tickets.recorded = some n :=
    Option.ne_none_iff_exists'.mp fun hnone => hne (hs.blank hnone)
  obtain ⟨r, hget⟩ : ∃ r, ((start session).run p moves).updates[n]? = some r :=
    ⟨_, List.getElem?_eq_getElem (hs.recorded_lt_length hr)⟩
  have hfound := (hkept n r hr hget).symm.trans hlast.symm
  have hmem := List.mem_of_getElem? hget
  have hticket := hs.numbered hget
  refine ⟨r, hmem, hticket ▸ hr, hfound, ?_⟩
  have hsound := hs.sound r hmem
  unfold Update.Sound at hsound
  -- only an event that went on after its scope was checked can be the recorded one
  split at hsound
  · exact absurd (hticket ▸ hr) hsound.1
  · next hstage => exact .inr (.inl (by rw [hstage]; rfl))
  · next hstage => exact .inr (.inl (by rw [hstage]; rfl))
  · exact absurd (hticket ▸ hr) hsound.1
  · exact absurd (hticket ▸ hr) hsound.1
  · next report hstage =>
    obtain ⟨b, hb, hidentity⟩ := given_of_recorded session moves hl hmem (hticket ▸ hr) hstage
    exact .inl ⟨b, hb, hidentity.trans hfound⟩
  · next f hstage => exact .inr (.inr ⟨f, hstage⟩)

theorem unchanged_iff {t : Tickets} {found : Option Scope.Identity} :
    t.unchanged found = true ↔ found ≠ none ∧ t.last = found := by
  simp only [Tickets.unchanged, Bool.and_eq_true, Option.isSome_iff_ne_none, beq_iff_eq]
  exact and_congr_right fun _ => eq_comm

/-- An event that comes in and looks for its scope at once. -/
theorem arrive_looks (t : Traffic σ) {d : Document} {at_ : Position} {scope : Option Scope}
    (hl : ∀ session, ((p.locate d at_).run session).1 = .ok scope)
    (receive : Report → Lookup σ Unit) :
    ∃ w, (t.run p [.arrive d at_ receive, .advance t.updates.length]).updates[t.updates.length]? =
        some w ∧ w.found = scope.map (Scope.identity d) ∧
      (w.stage = .ended (.ok .unchanged) ↔
        t.tickets.unchanged (scope.map (Scope.identity d)) = true) := by
  let arrived := t.move p (.arrive d at_ receive)
  let u : Update σ := ⟨d, at_, receive, t.tickets.next, none, .entered⟩
  have hu : arrived.updates[t.updates.length]? = some u := List.getElem?_concat_length
  obtain ⟨hfound, hstage⟩ := u.advance_looks (p := p) rfl (hl arrived.desk.session)
  refine ⟨(u.advance p arrived.desk).1, ?_, hfound, ?_⟩
  · exact move_advance_self hu
  · rw [hstage]
    change (if t.tickets.unchanged (scope.map (Scope.identity d)) then _ else _) = _ ↔ _
    split
    · next hknown => exact iff_of_true rfl hknown
    · next hnew => exact iff_of_false (by simp) hnew

/-- The step of one event, as a step of that event alone. -/
theorem advanced_at {s : Traffic σ} {i : Nat} {u v : Update σ} (hu : s.updates[i]? = some u)
    (hv : (s.move p (.advance i)).updates[i]? = some v) : v = (u.advance p s.desk).1 :=
  Option.some.inj (hv.symm.trans (move_advance_self hu))

/-- An event that fails now was under way. -/
theorem fails_underWay {s : Traffic σ} {i : Nat} {u v : Update σ} {f : Failure}
    (hu : s.updates[i]? = some u) (hfail : ∀ g, u.stage ≠ .ended (.error g))
    (hv : (s.move p (.advance i)).updates[i]? = some v) (hstage : v.stage = .ended (.error f)) :
    u.stage.underWay = true ∧ v.found = u.found := by
  cases advanced_at hu hv
  have hentered : u.stage ≠ .entered := fun h => u.looks_without_failing p h s.desk f hstage
  have ha := u.advance_advanced p s.desk
  refine ⟨?_, ha.found hentered⟩
  cases hs : u.stage with
  | entered => exact absurd hs hentered
  | accepted | computed report => rfl
  | ended outcome =>
    rw [ha.of_ended hs] at hstage
    exact absurd hstage (hfail f)

/-- In every state that events, resets and failures can lead to, an event is skipped only if its scope is
that of a recorded event whose report is the last one received, or is still to come, or never will come
because that event failed. An event that comes again right after it failed is skipped exactly if its
scope is still the remembered one. -/
theorem skipped_repeats (hl : p.locator.Steady) (session : Session σ) (moves : List (Move σ)) :
    let s := (start session).run p moves
    (∀ i u v, s.updates[i]? = some u → u.stage = .entered →
      (s.move p (.advance i)).updates[i]? = some v → v.stage = .ended (.ok .unchanged) →
        ∃ r, s.Recorder v.found r) ∧
    (∀ i u v f, s.updates[i]? = some u → (∀ g, u.stage ≠ .ended (.error g)) →
      (s.move p (.advance i)).updates[i]? = some v → v.stage = .ended (.error f) →
        ∀ receive, let t := s.move p (.advance i)
          ∃ w, (t.run p [.arrive u.document u.position receive,
              .advance t.updates.length]).updates[t.updates.length]? = some w ∧
            w.found = v.found ∧
            (w.stage = .ended (.ok .unchanged) ↔ v.found ≠ none ∧ t.tickets.last = v.found)) := by
  intro s
  refine ⟨fun i u v hu hentered hv hskip => ?_, fun i u v f hu hfail hv hstage receive => ?_⟩
  · cases advanced_at hu hv
    obtain ⟨scope, hscope⟩ := p.locator.locate_ok u.document u.position s.desk.session
    obtain ⟨hfound, hstage⟩ := Update.advance_looks hentered hscope
    rw [hskip] at hstage
    split at hstage
    · next hknown => exact recorder_of_unchanged session moves hl (hfound ▸ hknown)
    · cases hstage
  · obtain ⟨hway, hfound⟩ := fails_underWay hu hfail hv hstage
    obtain ⟨outcome, ho⟩ := hl.locate u.document u.position
    obtain ⟨scope, hscope⟩ := p.locator.locate_ok u.document u.position session
    have hlocate (session' : Session σ) := (ho session').trans ((ho session).symm.trans hscope)
    have hlocated : u.Located p := run_updates session moves (P := Update.Located p)
      (fun u hu => by simp [Update.Located, hu, Update.Stage.underWay])
      (fun desk u v t out ha hu => ha.located hl hu) u (List.mem_of_getElem? hu)
    have hidentity := hlocated hway session scope (hlocate session)
    obtain ⟨w, hw, hwfound, hwstage⟩ :=
      arrive_looks (s.move p (.advance i)) hlocate receive
    rw [← hidentity, ← hfound] at hwfound hwstage
    exact ⟨w, hw, hwfound, hwstage.trans unchanged_iff⟩

/-- A pipeline that fails wherever there is a call to look up. -/
def unstaffed : Pipeline Unit :=
  ⟨⟨none, 200⟩, (⟨fun _ => Lookup.fail .noHome, none⟩ : Resolver Unit).resolve, 0, []⟩

theorem unstaffed_steady : unstaffed.locator.Steady := nofun

def oneCall : Document := ⟨"file:///w/a.js", "function a() \x7b x(); \x7d\n", none, 0⟩

def oneCallScope : Scope := ⟨.onLine ⟨0, 0⟩ 21, "a"⟩

def atCall : Move Unit := .arrive oneCall ⟨0, 15⟩ fun _ => pure ()

/-- The first event finds its scope and fails; so nothing is out, and nothing is under way. The event
after it, at the same place, is skipped. -/
theorem skipped_after_failure :
    let s := (start ⟨(), []⟩).run unstaffed [atCall, .advance 0, .advance 0]
    let t := s.run unstaffed [atCall, .advance 1]
    unstaffed.locator.Steady ∧ s.updates.map Update.stage = [.ended (.error .noWorkers)] ∧
      s.given.length = 0 ∧
      t.updates.map Update.stage = [.ended (.error .noWorkers), .ended (.ok .unchanged)] :=
  ⟨unstaffed_steady, by decide +kernel, by decide +kernel, by decide +kernel⟩

theorem skipped_repeats_oneCall :
    let s := (start ⟨(), []⟩).run unstaffed [atCall, .advance 0]
    let t := s.move unstaffed (.advance 0)
    unstaffed.locator.Steady ∧ t.tickets.last = some (oneCallScope.identity oneCall) ∧
      ∃ w, (t.run unstaffed [atCall, .advance 1]).updates[1]? = some w ∧
        w.found = some (oneCallScope.identity oneCall) ∧ w.stage = .ended (.ok .unchanged) := by
  intro s t
  obtain ⟨-, hrepeat⟩ := skipped_repeats unstaffed_steady ⟨(), []⟩ [atCall, .advance 0]
  have hbefore : s.updates.map (fun u => (u.document, u.position, u.stage)) =
      [(oneCall, ⟨0, 15⟩, .accepted)] := by decide +kernel
  have hafter : t.updates.map (fun v => (v.found, v.stage)) =
      [(some (oneCallScope.identity oneCall), .ended (.error .noWorkers))] := by decide +kernel
  have hlast : t.tickets.last = some (oneCallScope.identity oneCall) := by decide +kernel
  obtain ⟨u, hu, hu'⟩ := List.map_eq_singleton_iff.mp hbefore
  obtain ⟨v, hv, hv'⟩ := List.map_eq_singleton_iff.mp hafter
  simp only [Prod.mk.injEq] at hu' hv'
  obtain ⟨hdocument, hposition, hstage⟩ := hu'
  obtain ⟨hfound, hfailed⟩ := hv'
  obtain ⟨w, hw, hwfound, hwstage⟩ := hrepeat 0 u v .noWorkers (congrArg (·[0]?) hu)
    (by rw [hstage]; nofun) (congrArg (·[0]?) hv) hfailed fun _ => pure ()
  rw [hdocument, hposition, show (s.move unstaffed (.advance 0)).updates.length = 1 from
    congrArg List.length hv] at hw
  refine ⟨unstaffed_steady, hlast, w, hw, hwfound.trans hfound, hwstage.mpr ⟨?_, ?_⟩⟩
  · rw [hfound]
    nofun
  · exact hlast.trans hfound.symm

end Traffic

end Callees

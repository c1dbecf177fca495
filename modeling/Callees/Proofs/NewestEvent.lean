import Callees.Proofs.TicketOrder

namespace Callees

namespace Update

variable {σ : Type} {p : Pipeline σ}

/-- An event that has looked for its scope does so no more, and one that has ended stays as it is. -/
structure Later (u v : Update σ) : Prop where
  ticket : v.ticket = u.ticket
  looked : u.stage ≠ .entered → v.stage ≠ .entered ∧ v.found = u.found
  ended : ∀ outcome, u.stage = .ended outcome → v = u

theorem Later.refl (u : Update σ) : Later u u := ⟨rfl, fun h => ⟨h, rfl⟩, fun _ _ => rfl⟩

theorem Later.trans {u v w : Update σ} (h : Later u v) (h' : Later v w) : Later u w where
  ticket := h'.ticket.trans h.ticket
  looked hu := by
    obtain ⟨hv, hf⟩ := h.looked hu
    obtain ⟨hw, hf'⟩ := h'.looked hv
    exact ⟨hw, hf'.trans hf⟩
  ended outcome hu := by
    cases h.ended outcome hu
    exact h'.ended outcome hu

theorem Advanced.later {desk : Desk σ} {u v : Update σ} {t : Tickets} {out : Option Publication}
    (ha : Advanced p desk u v t out) : Later u v where
  ticket := ha.kept.1
  looked hu := by
    refine ⟨?_, ha.found hu⟩
    cases ha with
    | idle => exact hu
    | _ => nofun
  ended _ hu := ha.of_ended hu

/-- An event can only be skipped in the step in which it looks for its scope. -/
theorem Advanced.skips {desk : Desk σ} {u v : Update σ} {t : Tickets} {out : Option Publication}
    (ha : Advanced p desk u v t out) (hv : v.stage = .ended (.ok .unchanged)) :
    u = v ∨ (u.stage = .entered ∧ desk.tickets.unchanged v.found = true) := by
  cases ha with
  | skipped entered known => exact .inr ⟨entered, known⟩
  | idle => exact .inl rfl
  | _ => cases hv

/-- An event that has found its scope, and was neither skipped nor failed, is not ahead of the recorded
one. -/
theorem Sound.le_recorded {t : Tickets} {u : Update σ} (hs : u.Sound t)
    (hle : Tickets.rank t.published ≤ Tickets.rank t.recorded) (he : u.stage ≠ .entered)
    (hskip : u.stage ≠ .ended (.ok .unchanged)) (hf : ∀ f, u.stage ≠ .ended (.error f)) :
    u.ticket ≤ Tickets.rank t.recorded := by
  unfold Sound at hs
  split at hs
  · exact absurd ‹_› he
  · exact hs.1
  · exact hs.1
  · exact absurd ‹_› hskip
  · exact hs.2
  · exact Int.le_trans hs hle
  · exact absurd ‹_› (hf _)

end Update

namespace Traffic

variable {σ : Type} {p : Pipeline σ}

/-- Events stay in the list, and the recorded ticket only grows. -/
structure Later (s s' : Traffic σ) : Prop where
  updates : ∀ (i : Nat) (u : Update σ), s.updates[i]? = some u →
    ∃ v, s'.updates[i]? = some v ∧ u.Later v
  recorded : Tickets.rank s.tickets.recorded ≤ Tickets.rank s'.tickets.recorded

theorem Later.refl (s : Traffic σ) : Later s s :=
  ⟨fun _ u hu => ⟨u, hu, .refl u⟩, Int.le_refl _⟩

theorem Later.trans {s s' s'' : Traffic σ} (h : Later s s') (h' : Later s' s'') : Later s s'' where
  updates i u hu := by
    obtain ⟨v, hv, huv⟩ := h.updates i u hu
    obtain ⟨w, hw, hvw⟩ := h'.updates i v hv
    exact ⟨w, hw, huv.trans hvw⟩
  recorded := Int.le_trans h.recorded h'.recorded

theorem move_later (s : Traffic σ) (m : Move σ) : Later s (s.move p m) := by
  cases m with
  | arrive d at_ receive =>
    refine ⟨fun i u hu => ⟨u, ?_, .refl u⟩, Int.le_refl _⟩
    exact (List.getElem?_append_left (List.getElem?_eq_some_iff.mp hu).1).trans hu
  | advance i =>
    cases hu : s.updates[i]? with
    | none => exact (move_advance_none (p := p) hu).symm ▸ .refl s
    | some u =>
      obtain ⟨v, t, session, out, ha, he⟩ := move_advance (p := p) hu
      rw [he]
      refine ⟨fun j w hw => ?_, ha.moved.recorded_le⟩
      by_cases hij : i = j
      · subst hij
        cases hu.symm.trans hw
        exact ⟨v, List.getElem?_set_self (List.getElem?_eq_some_iff.mp hu).1, ha.later⟩
      · exact ⟨w, (List.getElem?_set_ne hij).trans hw, .refl w⟩
  | reset => exact ⟨fun _ u hu => ⟨u, hu, .refl u⟩, Int.le_refl _⟩
  | elsewhere f => exact ⟨fun _ u hu => ⟨u, hu, .refl u⟩, Int.le_refl _⟩

theorem run_later (s : Traffic σ) (moves : List (Move σ)) : Later s (s.run p moves) := by
  induction moves generalizing s with
  | nil => exact .refl s
  | cons m ms ih => exact (move_later s m).trans (ih (s.move p m))

/-- Of an event that is skipped in the end, the step in which that happened. -/
theorem skipped_step (session : Session σ) (moves : List (Move σ)) {i : Nat} {u : Update σ}
    (hu : ((start session).run p moves).updates[i]? = some u)
    (hskip : u.stage = .ended (.ok .unchanged)) :
    ∃ before after w, moves = before ++ .advance i :: after ∧
      ((start session).run p before).updates[i]? = some w ∧ w.stage = .entered ∧
      ((start session).run p before).tickets.unchanged u.found = true := by
  induction moves using List.reverseRecOn with
  | nil => cases hu
  | append_singleton moves m ih =>
    have hlater (h : ((start session).run p moves).updates[i]? = some u) :
        ∃ before after w, moves ++ [m] = before ++ .advance i :: after ∧
          ((start session).run p before).updates[i]? = some w ∧ w.stage = .entered ∧
          ((start session).run p before).tickets.unchanged u.found = true := by
      obtain ⟨before, after, w, hsplit, hw⟩ := ih h
      exact ⟨before, after ++ [m], w, by rw [hsplit]; simp, hw⟩
    rw [run_concat] at hu
    cases m with
    | arrive d at_ receive =>
      rcases arrived hu with hu | ⟨-, rfl⟩
      · exact hlater hu
      · cases hskip
    | advance j =>
      cases hw : ((start session).run p moves).updates[j]? with
      | none => exact hlater ((move_advance_none (p := p) hw) ▸ hu)
      | some w =>
        obtain ⟨v, t, session', out, ha, he⟩ := move_advance (p := p) hw
        rw [he] at hu
        change (((start session).run p moves).updates.set j v)[i]? = some u at hu
        by_cases hij : j = i
        · subst hij
          rw [List.getElem?_set_self (List.getElem?_eq_some_iff.mp hw).1] at hu
          cases hu
          rcases ha.skips hskip with rfl | ⟨hentered, hknown⟩
          · exact hlater hw
          · exact ⟨moves, [], w, rfl, hw, hentered, hknown⟩
        · exact hlater ((List.getElem?_set_ne hij).symm.trans hu)
    | reset => exact hlater hu
    | elsewhere f => exact hlater hu

/-- The newest event `u` was skipped while an older one was still to look for its scope, and that
older one is recorded in the end, with another scope. -/
def Overtaken (p : Pipeline σ) (s : Traffic σ) (moves : List (Move σ)) (u : Update σ) : Prop :=
  u.stage = .ended (.ok .unchanged) ∧
  ∃ before after w v older, moves = before ++ .advance u.ticket :: after ∧
    (s.run p before).updates[u.ticket]? = some w ∧ w.stage = .entered ∧
    (s.run p before).updates[older.ticket]? = some v ∧ v.stage = .entered ∧
    older ∈ (s.run p moves).updates ∧ older.ticket < u.ticket ∧
    (s.run p moves).tickets.recorded = some older.ticket ∧ older.found ≠ u.found

theorem Settled.le_recorded {s : Traffic σ} (hs : s.Ordered) (hq : s.Settled) {u : Update σ}
    (hu : u ∈ s.updates) (hskip : u.stage ≠ .ended (.ok .unchanged)) :
    u.ticket ≤ Tickets.rank s.tickets.recorded := by
  obtain ⟨outcome, he⟩ := hq.ended hu
  refine (hs.sound u hu).le_recorded hs.published_le ?_ hskip ?_
  · rw [he]
    nofun
  · intro f
    rw [he]
    nofun

theorem Ordered.last_ticket {s : Traffic σ} (hs : s.Ordered) {u : Update σ}
    (hu : s.updates.getLast? = some u) : s.updates.length = u.ticket + 1 := by
  have hpos : s.updates ≠ [] := by
    intro h
    rw [h] at hu
    cases hu
  rw [List.getLast?_eq_getElem?] at hu
  have ht := hs.numbered hu
  have := List.length_pos_iff.mpr hpos
  omega

theorem remembers_of_no_reset {s : Traffic σ} {moves : List (Move σ)} (h : Move.reset ∉ moves) :
    Remembers p s moves := by
  intro before after hsplit
  apply absurd _ h
  rw [hsplit]
  simp

/-- An event that is recorded in the end had not looked for its scope, or was recorded already. -/
theorem Later.recorded_before {s s' : Traffic σ} (hl : Later s s') (hs : s.Ordered)
    (hs' : s'.Ordered) (hq : s'.Settled) {u v : Update σ} (hu : u ∈ s'.updates)
    (hr : s'.tickets.recorded = some u.ticket) (hv : v ∈ s.updates) (hvu : v.Later u)
    (he : v.stage ≠ .entered) : s.tickets.recorded = some u.ticket := by
  have hskip : v.stage ≠ .ended (.ok .unchanged) := by
    intro h
    cases hvu.ended _ h
    have hsound := hs'.sound u hu
    simp only [Update.Sound, h] at hsound
    exact hsound.1 hr
  have hfail : ∀ f, v.stage ≠ .ended (.error f) := by
    intro f h
    cases hvu.ended _ h
    obtain ⟨outcome, ho⟩ := hq.ended hu
    cases h.symm.trans ho
  have hle := (hs.sound v hv).le_recorded hs.published_le he hskip hfail
  have hge := hl.recorded
  rw [hr] at hge
  rw [← hvu.ticket] at hle
  exact Tickets.rank_inj (Int.le_antisymm hge hle)

/-- When the newest event was skipped, what it found was remembered as the scope of some event. So an
event that is recorded in the end with another scope was not recorded then, and had not looked yet. -/
theorem overtaken_of_ne (session : Session σ) {moves : List (Move σ)} (hreset : Move.reset ∉ moves)
    (hq : ((start session).run p moves).Settled) {u older : Update σ}
    (hu : ((start session).run p moves).updates.getLast? = some u)
    (hr : ((start session).run p moves).tickets.recorded = some older.ticket)
    (ho : ((start session).run p moves).updates[older.ticket]? = some older)
    (hne : older.found ≠ u.found) : Overtaken p (start session) moves u := by
  have hs := run_ordered (p := p) (start_ordered session) moves
  have hlen := hs.last_ticket hu
  have hmu := List.mem_of_getLast? hu
  have hmo := List.mem_of_getElem? ho
  have hlt : older.ticket < u.ticket := by
    have hol := hs.recorded_lt_length hr
    have hneq : older.ticket ≠ u.ticket := by
      intro he
      rw [List.getLast?_eq_getElem?, hlen, Nat.add_sub_cancel, ← he, ho] at hu
      cases hu
      exact hne rfl
    omega
  have hskip : u.stage = .ended (.ok .unchanged) := by
    by_contra hn
    have hle := hq.le_recorded hs hmu hn
    rw [hr, Tickets.rank_some] at hle
    omega
  rw [List.getLast?_eq_getElem?, hlen, Nat.add_sub_cancel] at hu
  obtain ⟨before, after, w, hsplit, hw, hentered, hknown⟩ := skipped_step session moves hu hskip
  have hlater : Later ((start session).run p before) ((start session).run p moves) := by
    rw [hsplit, run_append]
    exact run_later _ _
  have hbefore := run_ordered (p := p) (start_ordered session) before
  obtain ⟨v, hv⟩ : ∃ v, ((start session).run p before).updates[older.ticket]? = some v :=
    ⟨_, List.getElem?_eq_getElem (Nat.lt_trans hlt (List.getElem?_eq_some_iff.mp hw).1)⟩
  refine ⟨hskip, before, after, w, v, older, hsplit, hw, hentered, hv, ?_, hmo, hlt, hr, hne⟩
  by_contra hve
  obtain ⟨v', hv', hvo⟩ := hlater.updates _ _ hv
  cases ho.symm.trans hv'
  have hr' := hlater.recorded_before hbefore hs hq hmo hr (List.mem_of_getElem? hv) hvo hve
  have hkept : ((start session).run p before).Kept := by
    apply run_kept
    apply remembers_of_no_reset
    intro h
    apply hreset
    rw [hsplit]
    exact List.mem_append_left _ h
  have hlast := hkept _ _ hr' hv
  simp only [Tickets.unchanged, Bool.and_eq_true, beq_iff_eq] at hknown
  exact hne ((hvo.looked hve).2.trans (hlast.symm.trans hknown.2.symm))

/-- Once all events have returned, the report that was given out last is that of the newest event that
was not skipped. It is about the scope that the newest event of all has found, unless that one was
overtaken by an older one. -/
theorem newest_shown_iff {session : Session σ} {moves : List (Move σ)} (hl : p.locator.Steady)
    (hreset : Move.reset ∉ moves) (hq : ((start session).run p moves).Settled) {u : Update σ}
    (hu : ((start session).run p moves).updates.getLast? = some u) :
    ∃ b shown, ((start session).run p moves).given.getLast? = some b ∧
      shown ∈ ((start session).run p moves).updates ∧ shown.ticket = b.ticket ∧
      shown.stage ≠ .ended (.ok .unchanged) ∧
      (∀ w ∈ ((start session).run p moves).updates,
        w.stage ≠ .ended (.ok .unchanged) → w.ticket ≤ shown.ticket) ∧
      b.identity = shown.found ∧
      (b.identity = u.found ↔ ¬ Overtaken p (start session) moves u) := by
  have hs := run_ordered (p := p) (start_ordered session) moves
  have hmu := List.mem_of_getLast? hu
  obtain ⟨n, hr⟩ : ∃ n, ((start session).run p moves).tickets.recorded = some n := by
    apply Option.ne_none_iff_exists'.mp
    by_cases hskip : u.stage = .ended (.ok .unchanged)
    · have hsound := hs.sound u hmu
      simp only [Update.Sound, hskip] at hsound
      exact hsound.2
    · intro hn
      have hle := hq.le_recorded hs hmu hskip
      rw [hn, Tickets.rank_none] at hle
      omega
  obtain ⟨b, hb, rfl⟩ := hs.last_given ((hs.settled hq).trans hr)
  obtain ⟨shown, _, ho, -, hfound⟩ := (run_faithful session moves hl).given b (List.mem_of_getLast? hb)
  have hticket := hs.numbered ho
  have hmo := List.mem_of_getElem? ho
  rw [← hticket] at hr ho
  refine ⟨b, shown, hb, hmo, hticket, ?_, ?_, hfound.symm, ?_, ?_⟩
  · intro hskip
    have hsound := hs.sound shown hmo
    simp only [Update.Sound, hskip] at hsound
    exact hsound.1 hr
  · intro w hw hskip
    have hle := hq.le_recorded hs hw hskip
    rw [hr] at hle
    exact Int.ofNat_le.mp hle
  · rintro he ⟨-, _, _, _, _, older, -, -, -, -, -, holder, -, hro, hne⟩
    rw [hr] at hro
    obtain ⟨i, hi⟩ := List.mem_iff_getElem?.mp holder
    cases hs.numbered hi
    rw [← Option.some.inj hro] at hi
    cases hi.symm.trans ho
    exact hne (hfound.trans he)
  · intro hno
    by_contra hne
    exact hno (overtaken_of_ne session hreset hq hu hr ho fun he => hne (hfound.symm.trans he))

/-- The report of the function on line 0 is out. An event on line 1 takes its ticket and waits; then one
back on line 0 is skipped, and the one on line 1 goes on. -/
def returning : List (Move Unit) :=
  [cursorAt 0, .advance 0, .advance 0, .advance 0, cursorAt 1, cursorAt 0, .advance 2, .advance 1,
    .advance 1, .advance 1]

theorem returning_no_reset : Move.reset ∉ returning := by
  simp [returning, cursorAt]

theorem returning_settled : ((start ⟨(), []⟩).run twoFunctions returning).Settled := by
  decide +kernel

theorem returning_shows_older :
    let s := (start ⟨(), []⟩).run twoFunctions returning
    twoFunctions.locator.Steady ∧ Move.reset ∉ returning ∧ s.Settled ∧
      s.updates.getLast?.map Update.found =
        some (some ⟨"doc", 0, ⟨⟨0, 0⟩, ⟨1, 0⟩, by decide⟩, "first"⟩) ∧
      s.given.getLast?.map Publication.identity =
        some (some ⟨"doc", 0, ⟨⟨1, 0⟩, ⟨2, 0⟩, by decide⟩, "second"⟩) :=
  ⟨twoFunctions_steady, returning_no_reset, returning_settled, by decide +kernel,
    by decide +kernel⟩

theorem newest_shown_iff_returning :
    twoFunctions.locator.Steady ∧ Move.reset ∉ returning ∧
      ((start ⟨(), []⟩).run twoFunctions returning).Settled ∧
      ∃ u, ((start ⟨(), []⟩).run twoFunctions returning).updates.getLast? = some u ∧
        Overtaken twoFunctions (start ⟨(), []⟩) returning u := by
  obtain ⟨u, hu⟩ : ∃ u, ((start ⟨(), []⟩).run twoFunctions returning).updates.getLast? = some u :=
    ⟨_, rfl⟩
  obtain ⟨b, _, hb, _, _, _, _, _, hiff⟩ :=
    newest_shown_iff twoFunctions_steady returning_no_reset returning_settled hu
  refine ⟨twoFunctions_steady, returning_no_reset, returning_settled, u, hu, ?_⟩
  by_contra hno
  have he := hiff.mpr hno
  have hfound := congrArg (Option.map Update.found) hu
  have hidentity := congrArg (Option.map Publication.identity) hb
  rw [Option.map_some, ← he] at hfound
  rw [Option.map_some] at hidentity
  exact absurd (hfound.trans hidentity.symm) (by decide +kernel)

end Traffic

end Callees

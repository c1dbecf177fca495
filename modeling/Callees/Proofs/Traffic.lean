import Callees.Pipeline.Traffic
import Callees.Proofs.Steady

namespace Callees

namespace Tickets

/-- The number of a ticket; that there was none yet counts below all of them. -/
def rank : Option Nat → Int
  | none => -1
  | some n => n

@[simp] theorem rank_none : rank none = -1 := rfl

@[simp] theorem rank_some (n : Nat) : rank (some n) = n := rfl

theorem rank_ge (n : Option Nat) : -1 ≤ rank n := by
  cases n <;> simp

theorem rank_inj {m n : Option Nat} (h : rank m = rank n) : m = n := by
  cases m <;> cases n <;> simp only [rank_none, rank_some] at h
  · rfl
  · omega
  · omega
  · exact congrArg some (Int.ofNat.inj h)

theorem newer_iff {n : Nat} {than : Option Nat} : newer n than = true ↔ rank than < n := by
  cases than with
  | none =>
    simp only [newer, Option.all_none, rank_none, true_iff]
    omega
  | some m => simp [newer]

theorem stale_iff {t : Tickets} {n : Nat} : t.stale n = true ↔ n < rank t.published := by
  cases hp : t.published with
  | none =>
    simp only [stale, hp, Option.any_none, Bool.false_eq_true, rank_none, false_iff]
    omega
  | some m => simp [stale, hp]

theorem not_stale {t : Tickets} {n : Nat} (h : t.stale n = false) : rank t.published ≤ n := by
  have hn : ¬ t.stale n = true := by simp [h]
  rw [stale_iff] at hn
  omega

/-- Tickets that differ at most by what the event with ticket `n` did to them. -/
structure Moved (n : Nat) (t t' : Tickets) : Prop where
  next : t'.next = t.next
  recorded_le : rank t.recorded ≤ rank t'.recorded
  recorded : t'.recorded = t.recorded ∨ t'.recorded = some n
  published_le : rank t.published ≤ rank t'.published
  published : t'.published = t.published ∨ t'.published = some n
  last : t'.recorded = t.recorded → t'.last = t.last

theorem Moved.refl (n : Nat) (t : Tickets) : Moved n t t :=
  ⟨rfl, Int.le_refl _, .inl rfl, Int.le_refl _, .inl rfl, fun _ => rfl⟩

theorem record_newer {t : Tickets} {n : Nat} {found : Option Scope.Identity}
    (h : rank t.recorded < n) : t.record n found = { t with last := found, recorded := some n } :=
  if_pos (newer_iff.mpr h)

theorem record_older {t : Tickets} {n : Nat} {found : Option Scope.Identity}
    (h : n ≤ rank t.recorded) : t.record n found = t := by
  apply if_neg
  rw [newer_iff]
  omega

theorem record_published (t : Tickets) (n : Nat) (found : Option Scope.Identity) :
    (t.record n found).published = t.published := by
  rcases Int.lt_or_le (rank t.recorded) n with h | h
  · rw [record_newer h]
  · rw [record_older h]

theorem record_moved (t : Tickets) (n : Nat) (found : Option Scope.Identity) :
    Moved n t (t.record n found) := by
  rcases Int.lt_or_le (rank t.recorded) n with h | h
  · rw [record_newer h]
    refine ⟨rfl, Int.le_of_lt h, .inr rfl, Int.le_refl _, .inl rfl, ?_⟩
    intro he
    rw [← he] at h
    exact absurd h (Int.lt_irrefl _)
  · rw [record_older h]
    exact .refl n t

theorem le_record (t : Tickets) (n : Nat) (found : Option Scope.Identity) :
    n ≤ rank (t.record n found).recorded := by
  rcases Int.lt_or_le (rank t.recorded) n with h | h
  · rw [record_newer h]
    exact Int.le_refl _
  · rw [record_older h]
    exact h

theorem publish_moved {t : Tickets} {n : Nat} (h : t.stale n = false) : Moved n t (t.publish n) :=
  ⟨rfl, Int.le_refl _, .inl rfl, not_stale h, .inr rfl, fun _ => rfl⟩

end Tickets

namespace Update

variable {σ : Type} {p : Pipeline σ}

/-- Everything that the next step of an event can do: the event after it, the tickets that it leaves,
and what it gives out. -/
inductive Advanced (p : Pipeline σ) (desk : Desk σ) (u : Update σ) :
    Update σ → Tickets → Option Publication → Prop
  | lost {f : Failure} (entered : u.stage = .entered) :
      Advanced p desk u { u with stage := .ended (.error f) } desk.tickets none
  | skipped {scope : Option Scope} (entered : u.stage = .entered)
      (known : desk.tickets.unchanged (scope.map (Scope.identity u.document)) = true) :
      Advanced p desk u
        { u with
          found := scope.map (Scope.identity u.document)
          stage := .ended (.ok .unchanged) }
        desk.tickets none
  | accepted {scope : Option Scope} (entered : u.stage = .entered)
      (located : ((p.locate u.document u.position).run desk.session).1 = .ok scope)
      (changed : desk.tickets.unchanged (scope.map (Scope.identity u.document)) = false) :
      Advanced p desk u
        { u with found := scope.map (Scope.identity u.document), stage := .accepted }
        (desk.tickets.record u.ticket (scope.map (Scope.identity u.document))) none
  | failed {f : Failure} (accepted : u.stage = .accepted) :
      Advanced p desk u { u with stage := .ended (.error f) } desk.tickets none
  | computed {report : Report} (accepted : u.stage = .accepted)
      (ran : ((p.run u.document u.position).run desk.session).1 = .ok report) :
      Advanced p desk u { u with stage := .computed report } desk.tickets none
  | dropped {report : Report} (computed : u.stage = .computed report)
      (late : desk.tickets.stale u.ticket = true) :
      Advanced p desk u { u with stage := .ended (.ok .stale) } desk.tickets none
  | published {report : Report} (computed : u.stage = .computed report)
      (timely : desk.tickets.stale u.ticket = false) :
      Advanced p desk u { u with stage := .ended (.ok (.published report)) }
        (desk.tickets.publish u.ticket) (some ⟨u.ticket, u.document, report, true⟩)
  | refused {report : Report} {f : Failure} (computed : u.stage = .computed report)
      (timely : desk.tickets.stale u.ticket = false) :
      Advanced p desk u { u with stage := .ended (.error f) }
        (desk.tickets.publish u.ticket) (some ⟨u.ticket, u.document, report, false⟩)
  | idle {outcome : Except Failure Outcome} (ended : u.stage = .ended outcome) :
      Advanced p desk u u desk.tickets none

theorem Advanced.kept {desk : Desk σ} {u v : Update σ} {t : Tickets} {out : Option Publication}
    (ha : Advanced p desk u v t out) :
    v.ticket = u.ticket ∧ v.document = u.document ∧ v.position = u.position := by
  cases ha <;> exact ⟨rfl, rfl, rfl⟩

theorem Advanced.moved {desk : Desk σ} {u v : Update σ} {t : Tickets} {out : Option Publication}
    (ha : Advanced p desk u v t out) : Tickets.Moved u.ticket desk.tickets t := by
  cases ha with
  | accepted => exact Tickets.record_moved ..
  | published _ timely | refused _ timely => exact Tickets.publish_moved timely
  | _ => exact .refl ..

theorem advance_advanced (p : Pipeline σ) (u : Update σ) (desk : Desk σ) :
    Advanced p desk u (u.advance p desk).1 (u.advance p desk).2.tickets
      (u.given? (u.advance p desk).1) := by
  unfold advance given?
  cases hs : u.stage with
  | entered =>
    cases hl : ((p.locate u.document u.position).run desk.session).1 with
    | error f =>
      simp only [Pipeline.check, AtDesk.bind_at, AtDesk.lookup_at, AtDesk.pure_at, hl]
      exact .lost hs
    | ok scope =>
      cases hk : desk.tickets.unchanged (scope.map (Scope.identity u.document)) with
      | true =>
        simp only [Pipeline.check, accept, AtDesk.bind_at, AtDesk.lookup_at, AtDesk.tickets_at,
          AtDesk.note_at, AtDesk.pure_at, hl, hk, ↓reduceIte]
        exact .skipped hs hk
      | false =>
        simp only [Pipeline.check, accept, AtDesk.bind_at, AtDesk.lookup_at, AtDesk.tickets_at,
          AtDesk.pure_at, hl, hk, Bool.false_eq_true, ↓reduceIte]
        exact .accepted hs hl hk
  | accepted =>
    cases hr : ((p.run u.document u.position).run desk.session).1 with
    | error f =>
      simp only [Pipeline.compute, AtDesk.bind_at, AtDesk.lookup_at, AtDesk.pure_at, hr]
      exact .failed hs
    | ok report =>
      simp only [Pipeline.compute, AtDesk.bind_at, AtDesk.lookup_at, AtDesk.pure_at, hr]
      exact .computed hs hr
  | computed report =>
    cases hk : desk.tickets.stale u.ticket with
    | true =>
      simp only [deliver, settle, AtDesk.bind_at, AtDesk.tickets_at, AtDesk.note_at,
        AtDesk.pure_at, hk, Bool.false_eq_true, ↓reduceIte]
      exact .dropped hs hk
    | false =>
      cases hr : ((u.receive report).run desk.session).1 with
      | error f =>
        simp only [deliver, settle, AtDesk.bind_at, AtDesk.tickets_at, AtDesk.lookup_at,
          AtDesk.pure_at, hk, hr, Bool.false_eq_true, ↓reduceIte]
        exact .refused hs hk
      | ok _ =>
        simp only [deliver, settle, AtDesk.bind_at, AtDesk.tickets_at, AtDesk.lookup_at,
          AtDesk.pure_at, hk, hr, Bool.false_eq_true, ↓reduceIte]
        exact .published hs hk
  | ended outcome => exact .idle hs

end Update

namespace Update

variable {σ : Type} {p : Pipeline σ}

/-- A step that gives nothing out leaves the published ticket alone. One that does has a report in hand,
and its ticket is not behind the one published before. -/
theorem Advanced.given {desk : Desk σ} {u v : Update σ} {t : Tickets} {out : Option Publication}
    (ha : Advanced p desk u v t out) :
    (out = none ∧ t.published = desk.tickets.published) ∨
    ∃ report received, u.stage = .computed report ∧ desk.tickets.stale u.ticket = false ∧
      t = desk.tickets.publish u.ticket ∧
      out = some ⟨u.ticket, u.document, report, received⟩ := by
  cases ha with
  | published computed timely => exact .inr ⟨_, true, computed, timely, rfl, rfl⟩
  | refused computed timely => exact .inr ⟨_, false, computed, timely, rfl, rfl⟩
  | accepted => exact .inl ⟨rfl, Tickets.record_published ..⟩
  | _ => exact .inl ⟨rfl, rfl⟩

/-- Where the ticket of an event stands, by how far the event has come. -/
def Sound (t : Tickets) (u : Update σ) : Prop :=
  match u.stage with
  | .entered => t.recorded ≠ some u.ticket ∧ t.published ≠ some u.ticket
  | .accepted | .computed _ =>
    u.ticket ≤ Tickets.rank t.recorded ∧ t.published ≠ some u.ticket
  | .ended (.ok .unchanged) => t.recorded ≠ some u.ticket ∧ t.recorded ≠ none
  | .ended (.ok .stale) => t.recorded ≠ some u.ticket ∧ u.ticket ≤ Tickets.rank t.recorded
  | .ended (.ok (.published _)) => u.ticket ≤ Tickets.rank t.published
  | .ended (.error _) => True

/-- What one event does to the tickets leaves every other event where it stood. -/
theorem Sound.of_moved {u : Update σ} {n : Nat} {t t' : Tickets} (hs : u.Sound t)
    (hn : u.ticket ≠ n) (hm : Tickets.Moved n t t') : u.Sound t' := by
  have hr : t.recorded ≠ some u.ticket → t'.recorded ≠ some u.ticket := by
    intro h he
    rcases hm.recorded with hk | hk
    · exact h (hk ▸ he)
    · exact hn (Option.some.inj (he.symm.trans hk))
  have hp : t.published ≠ some u.ticket → t'.published ≠ some u.ticket := by
    intro h he
    rcases hm.published with hk | hk
    · exact h (hk ▸ he)
    · exact hn (Option.some.inj (he.symm.trans hk))
  have hnone : t.recorded ≠ none → t'.recorded ≠ none := by
    intro h he
    rcases hm.recorded with hk | hk
    · exact h (hk ▸ he)
    · cases hk.symm.trans he
  unfold Sound at hs ⊢
  split at hs
  · exact ⟨hr hs.1, hp hs.2⟩
  · exact ⟨Int.le_trans hs.1 hm.recorded_le, hp hs.2⟩
  · exact ⟨Int.le_trans hs.1 hm.recorded_le, hp hs.2⟩
  · exact ⟨hr hs.1, hnone hs.2⟩
  · exact ⟨hr hs.1, Int.le_trans hs.2 hm.recorded_le⟩
  · exact Int.le_trans hs hm.published_le
  · trivial

/-- An event that takes a step comes to stand where its new stage says. -/
theorem Sound.advanced {desk : Desk σ} {u v : Update σ} {t : Tickets} {out : Option Publication}
    (hs : u.Sound desk.tickets) (ha : Advanced p desk u v t out)
    (hle : Tickets.rank desk.tickets.published ≤ Tickets.rank desk.tickets.recorded)
    (hblank : desk.tickets.recorded = none → desk.tickets.last = none) : v.Sound t := by
  cases ha with
  | lost | failed | refused => trivial
  | skipped entered known =>
    simp only [Sound, entered] at hs
    refine ⟨hs.1, fun hr => ?_⟩
    have hl := hblank hr
    simp only [Tickets.unchanged, hl, Bool.and_eq_true, beq_iff_eq] at known
    rw [known.2] at known
    exact absurd known.1 (by simp)
  | accepted entered =>
    simp only [Sound, entered] at hs
    exact ⟨Tickets.le_record .., (Tickets.record_published ..).symm ▸ hs.2⟩
  | computed accepted =>
    simp only [Sound, accepted] at hs
    exact hs
  | dropped computed late =>
    simp only [Sound, computed] at hs
    rw [Tickets.stale_iff] at late
    refine ⟨fun he => ?_, hs.1⟩
    have hr := congrArg Tickets.rank he
    simp only [Tickets.rank_some] at hr
    omega
  | published => exact Int.le_refl _
  | idle => exact hs

end Update

namespace Traffic

variable {σ : Type} {p : Pipeline σ}

theorem run_append (s : Traffic σ) (before after : List (Move σ)) :
    s.run p (before ++ after) = (s.run p before).run p after := List.foldl_append

theorem run_concat (s : Traffic σ) (moves : List (Move σ)) (m : Move σ) :
    s.run p (moves ++ [m]) = (s.run p moves).move p m := run_append s moves [m]

/-- What holds between the steps of any events. -/
structure Ordered (s : Traffic σ) : Prop where
  numbered : ∀ {i : Nat} {u : Update σ}, s.updates[i]? = some u → u.ticket = i
  next : s.tickets.next = s.updates.length
  published_le : Tickets.rank s.tickets.published ≤ Tickets.rank s.tickets.recorded
  recorded_lt : Tickets.rank s.tickets.recorded < s.tickets.next
  sound : ∀ u ∈ s.updates, u.Sound s.tickets
  given_le : ∀ b ∈ s.given, b.ticket ≤ Tickets.rank s.tickets.published
  given_last : (s.given.map Publication.ticket).getLast? = s.tickets.published
  increasing : (s.given.map Publication.ticket).Pairwise (· < ·)
  blank : s.tickets.recorded = none → s.tickets.last = none

theorem start_ordered (session : Session σ) : Ordered (start session) where
  numbered h := by simp [start] at h
  next := rfl
  published_le := Int.le_refl _
  recorded_lt := by
    change (-1 : Int) < ((0 : Nat) : Int)
    omega
  sound := by simp [start]
  given_le := by simp [start]
  given_last := rfl
  increasing := .nil
  blank _ := rfl

/-- The step of an event that is on its way, as a change of the whole. -/
theorem move_advance {s : Traffic σ} {i : Nat} {u : Update σ} (hu : s.updates[i]? = some u) :
    ∃ v t session out, Update.Advanced p s.desk u v t out ∧
      s.move p (.advance i) = ⟨⟨t, session⟩, s.updates.set i v, s.given ++ out.toList⟩ := by
  refine ⟨_, _, (u.advance p s.desk).2.session, _, u.advance_advanced p s.desk, ?_⟩
  simp only [move, hu]
  rfl

theorem move_advance_none {s : Traffic σ} {i : Nat} (hu : s.updates[i]? = none) :
    s.move p (.advance i) = s := by
  simp only [move, hu]

theorem move_advance_eq {s : Traffic σ} {i : Nat} {u : Update σ} (hu : s.updates[i]? = some u) :
    (s.move p (.advance i)).desk = (u.advance p s.desk).2 ∧
      (s.move p (.advance i)).updates = s.updates.set i (u.advance p s.desk).1 := by
  simp only [move, hu]
  exact ⟨rfl, rfl⟩

/-- A step of one event changes no other. -/
theorem move_advance_ne {s : Traffic σ} {i k : Nat} (h : i ≠ k) :
    (s.move p (.advance k)).updates[i]? = s.updates[i]? := by
  cases hu : s.updates[k]? with
  | none => rw [move_advance_none hu]
  | some u => rw [(move_advance_eq hu).2, List.getElem?_set_ne (Ne.symm h)]

theorem move_advance_self {s : Traffic σ} {k : Nat} {u : Update σ} (hu : s.updates[k]? = some u) :
    (s.move p (.advance k)).updates[k]? = some (u.advance p s.desk).1 := by
  rw [(move_advance_eq hu).2, List.getElem?_set_self (List.getElem?_eq_some_iff.mp hu).1]

theorem rank_lt_ne {n : Option Nat} {k : Nat} (h : Tickets.rank n < k) : n ≠ some k := by
  rintro rfl
  exact Int.lt_irrefl _ h

/-- After one event has come in, an event in the list was there before or is the new one. -/
theorem arrived {us : List (Update σ)} {i : Nat} {u v : Update σ} (hu : (us ++ [v])[i]? = some u) :
    us[i]? = some u ∨ (i = us.length ∧ u = v) := by
  rcases Nat.lt_or_ge i us.length with hi | hi
  · exact .inl ((List.getElem?_append_left hi).symm.trans hu)
  · rw [List.getElem?_append_right hi, List.getElem?_singleton] at hu
    split at hu
    · exact .inr ⟨by omega, (Option.some.inj hu).symm⟩
    · cases hu

theorem arrive_ordered {s : Traffic σ} (hs : s.Ordered) (d : Document) (at_ : Position)
    (receive : Report → Lookup σ Unit) : (s.move p (.arrive d at_ receive)).Ordered where
  numbered {i u} hu := by
    rcases arrived hu with hu | ⟨rfl, rfl⟩
    · exact hs.numbered hu
    · exact hs.next
  next := by
    change s.tickets.next + 1 = (s.updates ++ [_]).length
    rw [hs.next, List.length_append, List.length_singleton]
  published_le := hs.published_le
  recorded_lt := by
    have hr := hs.recorded_lt
    change _ < ((s.tickets.next + 1 : Nat) : Int)
    change Tickets.rank s.tickets.recorded < _
    omega
  sound u hu := by
    rcases List.mem_append.mp hu with hu | hu
    · exact hs.sound u hu
    · cases List.mem_singleton.mp hu
      have hr := hs.recorded_lt
      exact ⟨rank_lt_ne hr, rank_lt_ne (Int.lt_of_le_of_lt hs.published_le hr)⟩
  given_le := hs.given_le
  given_last := hs.given_last
  increasing := hs.increasing
  blank := hs.blank

/-- After one event has taken a step, an event in the list is that one or was there before under
another ticket. -/
theorem mem_set {us : List (Update σ)} {i : Nat} {v w : Update σ} (hw : w ∈ us.set i v) :
    w = v ∨ ∃ j, j ≠ i ∧ us[j]? = some w := by
  obtain ⟨j, hj⟩ := List.mem_iff_getElem?.mp hw
  rw [List.getElem?_set] at hj
  split at hj
  · split at hj
    · exact .inl (Option.some.inj hj).symm
    · cases hj
  · exact .inr ⟨j, by omega, hj⟩

/-- A step that gives a report out does so for an event that comes after all published ones and not
after the recorded one. -/
theorem Ordered.given_step {s : Traffic σ} (hs : s.Ordered) {i : Nat} {u v : Update σ} {t : Tickets}
    {out : Option Publication} (hu : s.updates[i]? = some u)
    (ha : Update.Advanced p s.desk u v t out) :
    (out = none ∧ t.published = s.tickets.published) ∨
    ∃ b, out = some b ∧ b.ticket = i ∧ t.published = some i ∧ t.recorded = s.tickets.recorded ∧
      Tickets.rank s.tickets.published < i ∧ i ≤ Tickets.rank s.tickets.recorded := by
  rcases ha.given with h | ⟨report, received, hc, htimely, rfl, rfl⟩
  · exact .inl h
  · have hi := hs.numbered hu
    have hsound := hs.sound u (List.mem_of_getElem? hu)
    simp only [Update.Sound, hc, hi] at hsound
    have hle := Tickets.not_stale htimely
    have hne : Tickets.rank s.tickets.published ≠ i := fun h => hsound.2 (Tickets.rank_inj h)
    refine .inr ⟨_, rfl, hi, congrArg some hi, rfl, ?_, hsound.1⟩
    change Tickets.rank s.tickets.published ≤ u.ticket at hle
    omega

/-- After a step, the reports given out are still in order, and end with the published one. -/
theorem Ordered.given_after {s : Traffic σ} (hs : s.Ordered) {i : Nat} {u v : Update σ} {t : Tickets}
    {out : Option Publication} (hu : s.updates[i]? = some u)
    (ha : Update.Advanced p s.desk u v t out) :
    (∀ b ∈ s.given ++ out.toList, b.ticket ≤ Tickets.rank t.published) ∧
    ((s.given ++ out.toList).map Publication.ticket).getLast? = t.published ∧
    ((s.given ++ out.toList).map Publication.ticket).Pairwise (· < ·) := by
  rcases hs.given_step hu ha with ⟨rfl, hp⟩ | ⟨b, rfl, hb, hp, -, hlt, -⟩
  · rw [hp, Option.toList_none, List.append_nil]
    exact ⟨hs.given_le, hs.given_last, hs.increasing⟩
  · rw [hp, Option.toList_some, List.map_append]
    refine ⟨fun a ha => ?_, by simp [hb], ?_⟩
    · rw [Tickets.rank_some]
      rcases List.mem_append.mp ha with ha | ha
      · have := hs.given_le a ha
        omega
      · cases List.mem_singleton.mp ha
        exact Int.le_of_eq (congrArg Int.ofNat hb)
    · refine List.pairwise_append.mpr ⟨hs.increasing, List.pairwise_singleton .., ?_⟩
      intro m hm n hn
      obtain ⟨a, ha, rfl⟩ := List.mem_map.mp hm
      cases List.mem_singleton.mp hn
      have := hs.given_le a ha
      omega

/-- A step changes the tickets only within the bounds. -/
theorem Ordered.tickets_after {s : Traffic σ} (hs : s.Ordered) {i : Nat} {u v : Update σ}
    {t : Tickets} {out : Option Publication} (hu : s.updates[i]? = some u)
    (ha : Update.Advanced p s.desk u v t out) :
    Tickets.rank t.published ≤ Tickets.rank t.recorded ∧ Tickets.rank t.recorded < t.next ∧
      (t.recorded = none → t.last = none) := by
  have hm := ha.moved
  refine ⟨?_, ?_, fun hn => ?_⟩
  · rcases hs.given_step hu ha with ⟨-, hp⟩ | ⟨b, -, -, hp, hr, -, hle⟩
    · rw [hp]
      exact Int.le_trans hs.published_le hm.recorded_le
    · rw [hp, hr]
      exact hle
  · rw [hm.next]
    rcases hm.recorded with hr | hr
    · rw [hr]
      exact hs.recorded_lt
    · rw [hr, Tickets.rank_some, hs.numbered hu]
      change (i : Int) < s.tickets.next
      rw [hs.next]
      exact Int.ofNat_lt.mpr (List.getElem?_eq_some_iff.mp hu).1
  · rcases hm.recorded with hr | hr
    · rw [hm.last hr]
      exact hs.blank (hr ▸ hn)
    · cases hn.symm.trans hr

theorem advance_ordered {s : Traffic σ} (hs : s.Ordered) (i : Nat) :
    (s.move p (.advance i)).Ordered := by
  cases hu : s.updates[i]? with
  | none => exact (move_advance_none hu).symm ▸ hs
  | some u =>
    obtain ⟨v, t, session, out, ha, he⟩ := move_advance (p := p) hu
    rw [he]
    have hm := ha.moved
    have hi := hs.numbered hu
    obtain ⟨hle, hlt, hblank⟩ := hs.tickets_after hu ha
    obtain ⟨hgiven, hlast, hincreasing⟩ := hs.given_after hu ha
    refine ⟨?_, ?_, hle, hlt, ?_, hgiven, hlast, hincreasing, hblank⟩
    · intro j w hw
      by_cases hij : i = j
      · subst hij
        rw [List.getElem?_set_self (List.getElem?_eq_some_iff.mp hu).1] at hw
        cases hw
        exact ha.kept.1.trans hi
      · rw [List.getElem?_set_ne hij] at hw
        exact hs.numbered hw
    · change t.next = (s.updates.set i v).length
      rw [List.length_set, hm.next]
      exact hs.next
    · intro w hw
      rcases mem_set hw with rfl | ⟨j, hj, hw⟩
      · exact (hs.sound u (List.mem_of_getElem? hu)).advanced ha hs.published_le hs.blank
      · have hne : w.ticket ≠ u.ticket := by
          rw [hs.numbered hw, hi]
          exact hj
        exact (hs.sound w (List.mem_of_getElem? hw)).of_moved hne hm

theorem move_ordered {s : Traffic σ} (hs : s.Ordered) (m : Move σ) : (s.move p m).Ordered := by
  cases m with
  | arrive d at_ receive => exact arrive_ordered hs d at_ receive
  | advance i => exact advance_ordered hs i
  | reset => exact { hs with blank := fun _ => rfl }
  | elsewhere f => exact { hs with }

theorem run_ordered {s : Traffic σ} (hs : s.Ordered) (moves : List (Move σ)) :
    (s.run p moves).Ordered := by
  induction moves generalizing s with
  | nil => exact hs
  | cons m ms ih => exact ih (move_ordered hs m)

end Traffic

end Callees

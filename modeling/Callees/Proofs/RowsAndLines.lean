import Mathlib.Data.List.Basic
import Callees.Proofs.Offsets
import Callees.Proofs.SourceRows

namespace Callees

namespace Text

instance : DecidablePred IsBreak := fun _ => inferInstanceAs (Decidable (_ ∨ _))

/-- No `\r` stands alone. -/
def Paired (u : List Char) : Prop := ∀ i, u[i]? = some '\r' → u[i + 1]? = some '\n'

theorem Paired.append {u v : List Char} (hu : Paired u) (hv : Paired v) : Paired (u ++ v) := by
  intro i hi
  rcases Nat.lt_or_ge i u.length with hlt | hge
  · rw [List.getElem?_append_left hlt] at hi
    have hnext := hu i hi
    rwa [List.getElem?_append_left (List.getElem?_eq_some_iff.mp hnext).1]
  · rw [List.getElem?_append_right hge] at hi
    rw [List.getElem?_append_right (Nat.le_succ_of_le hge), Nat.succ_sub hge]
    exact hv _ hi

theorem Paired.behind {w u : List Char} (h : Paired (w ++ u)) : Paired u := by
  intro i hi
  have hget (k : Nat) : (w ++ u)[w.length + k]? = u[k]? := by
    rw [List.getElem?_append_right (Nat.le_add_right ..), Nat.add_sub_cancel_left]
  have hnext := h (w.length + i) ((hget i).trans hi)
  rwa [Nat.add_assoc, hget] at hnext

theorem Paired.ahead {u v : List Char} (h : Paired (u ++ v)) (hv : v.head? ≠ some '\n') :
    Paired u := by
  intro i hi
  have hlt := (List.getElem?_eq_some_iff.mp hi).1
  have hnext := h i ((List.getElem?_append_left hlt).trans hi)
  rcases Nat.lt_or_eq_of_le hlt with hin | heq
  · rwa [List.getElem?_append_left hin] at hnext
  · rw [List.getElem?_append_right (Nat.le_of_eq heq.symm), heq, Nat.sub_self,
      ← List.head?_eq_getElem?] at hnext
    exact absurd hnext hv

theorem paired_plain {w : List Char} (h : ∀ c ∈ w, ¬ IsBreak c) : Paired w :=
  fun _ hi => absurd (.inl rfl) (h '\r' (List.mem_of_getElem? hi))

theorem not_paired_single {w u : List Char} (h : u.head? ≠ some '\n') :
    ¬ Paired (w ++ '\r' :: u) := by
  intro hp
  have hnext := hp.behind 0 rfl
  rw [List.getElem?_cons_succ, ← List.head?_eq_getElem?] at hnext
  exact h hnext

/-- Behind the first line feed the columns begin anew. -/
theorem place_feed {w : List Char} (hw : '\n' ∉ w) (u : List Char) :
    place (w ++ '\n' :: u) = ⟨(place u).line + 1, (place u).character⟩ := by
  have hrun : lastRun '\n' (w ++ '\n' :: u) = lastRun '\n' u := by
    induction u using List.reverseRecOn with
    | nil => rw [lastRun_feed]; rfl
    | append_singleton u c ih =>
      rw [show w ++ '\n' :: (u ++ [c]) = (w ++ '\n' :: u) ++ [c] by simp]
      by_cases hc : c = '\n'
      · rw [hc, lastRun_feed, lastRun_feed]
      · have hnot : '\n' ∉ [c] := fun h => hc (List.mem_singleton.mp h).symm
        rw [lastRun_append _ hnot, lastRun_append _ hnot, ih]
  rw [place, hrun, List.count_append, List.count_cons_self, List.count_eq_zero.mpr hw, Nat.zero_add]
  rfl

theorem place_plain {w : List Char} (h : ∀ c ∈ w, ¬ IsBreak c) : place w = ⟨0, w.length⟩ := by
  have hw : '\n' ∉ w := fun hmem => h _ hmem (.inr rfl)
  rw [place, List.count_eq_zero.mpr hw, show lastRun '\n' w = w from lastRun_append [] hw]

theorem place_le (u w : List Char) : place u ≤ place (u ++ w) := by
  rw [Position.le_iff]
  by_cases hw : '\n' ∈ w
  · have hcount := List.count_pos_iff.mpr hw
    simp only [place, List.count_append]
    omega
  · refine .inr ⟨?_, ?_⟩
    · simp [place, List.count_eq_zero.mpr hw]
    · simp only [place]
      rw [lastRun_append u hw, List.length_append]
      exact Nat.le_add_right ..

/-- How a line and its break are cut in two: before the break, inside it, or behind it. -/
theorem Break.cut {w gap rest u v : List Char} (ends : Break gap rest)
    (h : w ++ (gap ++ rest) = u ++ v) :
    (∃ x, w = u ++ x) ∨ u = w ++ ['\r'] ∨ ∃ y, u = w ++ (gap ++ y) ∧ rest = y ++ v := by
  rcases List.append_eq_append_iff.mp h with ⟨x, rfl, hx⟩ | ⟨x, rfl, -⟩
  · rcases List.append_eq_append_iff.mp hx with ⟨y, rfl, hy⟩ | ⟨y, hgap, rfl⟩
    · exact .inr (.inr ⟨y, rfl, hy⟩)
    · -- what is left of `gap` is at most one character on either side
      cases ends with
      | both =>
        match x, hgap with
        | [], _ => exact .inl ⟨[], by simp⟩
        | [_], rfl => exact .inr (.inl rfl)
        | [_, _], rfl => exact .inr (.inr ⟨[], rfl, rfl⟩)
      | feed | single =>
        match x, hgap with
        | [], _ => exact .inl ⟨[], by simp⟩
        | [_], rfl => exact .inr (.inr ⟨[], rfl, rfl⟩)
  · exact .inl ⟨x, rfl⟩

/-- A break either ends in a line feed or is a `\r` that stands alone. -/
theorem Break.cases {gap rest : List Char} (ends : Break gap rest) :
    (∃ lead, gap = lead ++ ['\n'] ∧ '\n' ∉ lead ∧ Paired gap) ∨
      gap = ['\r'] ∧ rest.head? ≠ some '\n' := by
  cases ends with
  | both =>
    refine .inl ⟨['\r'], rfl, by decide, fun i hi => ?_⟩
    match i, hi with
    | 0, _ => rfl
    | 1, hi => cases hi
  | feed =>
    refine .inl ⟨[], rfl, List.not_mem_nil, fun i hi => ?_⟩
    match i, hi with
    | 0, hi => cases hi
  | single hne => exact .inr ⟨rfl, hne⟩

/-- A text that goes on to a plain character has gone on from the break. -/
theorem Break.last_behind {w gap rest y : List Char} (ends : Break gap rest)
    (hlast : ∀ c ∈ (w ++ (gap ++ y)).getLast?, ¬ IsBreak c) :
    y ≠ [] ∧ ∀ c ∈ y.getLast?, ¬ IsBreak c := by
  have hgap : gap ≠ [] := by cases ends <;> nofun
  have hy : y ≠ [] := by
    rintro rfl
    rw [List.append_nil, List.getLast?_append_of_ne_nil _ hgap,
      List.getLast?_eq_some_getLast hgap] at hlast
    exact hlast _ rfl (ends.isBreak _ (List.getLast_mem hgap))
  refine ⟨hy, ?_⟩
  rwa [← List.append_assoc, List.getLast?_append_of_ne_nil _ hy] at hlast

theorem place_gap {w lead : List Char} (hw : ∀ c ∈ w, ¬ IsBreak c) (hlead : '\n' ∉ lead)
    (y : List Char) :
    place (w ++ (lead ++ ['\n'] ++ y)) = ⟨(place y).line + 1, (place y).character⟩ := by
  rw [show w ++ (lead ++ ['\n'] ++ y) = (w ++ lead) ++ '\n' :: y by simp]
  refine place_feed (fun hmem => ?_) y
  rcases List.mem_append.mp hmem with hmem | hmem
  · exact hw _ hmem (.inr rfl)
  · exact hlead hmem

theorem Layout.previous {o n : Nat} {cs : List Char} {ls : List Line} {m : Line}
    (h : Layout o cs ls) (hm : ls[n + 1]? = some m) : ∃ l, ls[n]? = some l ∧ l.stop < m.start := by
  obtain ⟨hlt, rfl⟩ := List.getElem?_eq_some_iff.mp hm
  exact ⟨ls[n], List.getElem?_eq_getElem (Nat.lt_of_succ_lt hlt),
    List.pairwise_iff_getElem.mp h.pairwise n (n + 1) (Nat.lt_of_succ_lt hlt) hlt n.lt_succ_self⟩

/-- Up to a place without a `\r` that stands alone, rows are lines. -/
theorem Layout.at_place {o : Nat} {cs u v : List Char} {ls : List Line} (h : Layout o cs ls)
    (hcs : cs = u ++ v) (hu : Paired u) : ∃ l, ls[(place u).line]? = some l ∧
      l.start + (place u).character = o + u.length ∧ (place u).character ≤ l.chars.length := by
  induction h generalizing u with
  | @last o w flat =>
    subst hcs
    rw [place_plain fun c hc => flat c (List.mem_append_left v hc)]
    exact ⟨_, rfl, rfl, by simp⟩
  | @broken o w gap rest ls flat ends more ih =>
    rcases ends.cut hcs with ⟨x, rfl⟩ | rfl | ⟨y, rfl, hrest⟩
    · rw [place_plain fun c hc => flat c (List.mem_append_left x hc)]
      exact ⟨_, rfl, rfl, by simp⟩
    · exact absurd hu (not_paired_single nofun)
    · obtain ⟨l, hl, hstart, hwithin⟩ := ih hrest hu.behind.behind
      obtain ⟨lead, rfl, hlead, -⟩ | ⟨rfl, hne⟩ := ends.cases
      · rw [place_gap flat hlead]
        exact ⟨l, hl, by simp at hstart ⊢; omega, hwithin⟩
      · refine absurd hu (not_paired_single fun hy => hne ?_)
        change y.head? = _ at hy
        rw [hrest, List.head?_append, hy]
        rfl

/-- After a `\r` that stands alone, the line with the number of a row ends too early. -/
theorem Layout.before_place {o : Nat} {cs u v : List Char} {ls : List Line} (h : Layout o cs ls)
    (hcs : cs = u ++ v) (hlast : ∀ c ∈ u.getLast?, ¬ IsBreak c) (hu : ¬ Paired u) :
    ∃ l, ls[(place u).line]? = some l ∧ l.stop < o + u.length := by
  induction h generalizing u with
  | @last o w flat =>
    subst hcs
    exact absurd (paired_plain fun c hc => flat c (List.mem_append_left v hc)) hu
  | @broken o w gap rest ls flat ends more ih =>
    rcases ends.cut hcs with ⟨x, rfl⟩ | rfl | ⟨y, rfl, hrest⟩
    · exact absurd (paired_plain fun c hc => flat c (List.mem_append_left x hc)) hu
    · exact absurd (.inl rfl) (hlast '\r' List.getLast?_concat)
    · obtain ⟨hy, hlast'⟩ := ends.last_behind hlast
      obtain ⟨lead, rfl, hlead, hgap⟩ | ⟨rfl, -⟩ := ends.cases
      · obtain ⟨l, hl, hstop⟩ := ih hrest hlast' fun hp =>
          hu ((paired_plain flat).append (hgap.append hp))
        rw [place_gap flat hlead]
        exact ⟨l, hl, by simp at hstop ⊢; omega⟩
      · -- the row goes on, while a new line has begun: so the line is the one before
        obtain ⟨m, hm, hstart⟩ : ∃ m, ls[(place y).line]? = some m ∧
            m.start ≤ o + w.length + 1 + y.length := by
          by_cases hp : Paired y
          · obtain ⟨m, hm, hstart, -⟩ := more.at_place hrest hp
            exact ⟨m, hm, Nat.le_of_add_right_le (Nat.le_of_eq hstart)⟩
          · obtain ⟨m, hm, hstop⟩ := ih hrest hlast' hp
            exact ⟨m, hm, Nat.le_of_add_right_le (Nat.le_of_lt hstop)⟩
        obtain ⟨l, hl, hlt⟩ := (Layout.broken flat ends more).previous hm
        have hrow : (place (w ++ (['\r'] ++ y))).line = (place y).line := by
          have hw : '\n' ∉ w := fun hmem => flat _ hmem (.inr rfl)
          simp [place, List.count_eq_zero.mpr hw]
        rw [hrow]
        exact ⟨l, hl, by simp; omega⟩

end Text

namespace Document

open Text

variable {d : Document} {u v : List Char}

/-- A place in rows is the offset that it stands for, up to the first `\r` that stands alone. -/
theorem offsetAt_place (h : d.chars = u ++ v) (hu : Paired u) : d.offsetAt (place u) = u.length := by
  obtain ⟨l, hl, hstart, hwithin⟩ := (lines_layout d.chars).at_place h hu
  rw [d.offsetAt_of_line hl, Nat.min_eq_left hwithin, hstart, Nat.zero_add]

theorem offsetAt_place_lt (h : d.chars = u ++ v) (hlast : ∀ c ∈ u.getLast?, ¬ IsBreak c)
    (hu : ¬ Paired u) : d.offsetAt (place u) < u.length := by
  obtain ⟨l, hl, hstop⟩ := (lines_layout d.chars).before_place h hlast hu
  rw [d.offsetAt_of_line hl]
  simp only [Line.stop] at hstop
  omega

end Document

end Callees

import Callees.Document

namespace Callees.Text

def IsBreak (c : Char) : Prop := c = '\r' ∨ c = '\n'

/-- A line break and what may follow it. A `\r\n` is never two breaks. -/
inductive Break : List Char → List Char → Prop
  | both (rest : List Char) : Break ['\r', '\n'] rest
  | feed (rest : List Char) : Break ['\n'] rest
  | single {rest : List Char} (h : rest.head? ≠ some '\n') : Break ['\r'] rest

theorem Break.isBreak {w rest : List Char} (h : Break w rest) : ∀ c ∈ w, IsBreak c := by
  cases h <;> simp [IsBreak]

/-- A character that does not split lengthens the first piece. -/
theorem splitOnChar_cons {sep c : Char} (h : c ≠ sep) (cs : List Char) : ∃ piece pieces,
    splitOnChar sep cs = piece :: pieces ∧ splitOnChar sep (c :: cs) = (c :: piece) :: pieces := by
  have hne : splitOnChar sep cs ≠ [] := by
    cases cs with
    | nil => exact List.cons_ne_nil _ _
    | cons e cs =>
      rw [splitOnChar]
      repeat' split
      all_goals exact List.cons_ne_nil _ _
  obtain ⟨piece, pieces, hcs⟩ := List.exists_cons_of_ne_nil hne
  exact ⟨piece, pieces, hcs, by rw [splitOnChar, if_neg h, hcs]⟩

/-- Lines with the breaks between them, from offset `o` on. -/
inductive Layout : Nat → List Char → List Line → Prop
  | last {o : Nat} {w : List Char} (flat : ∀ c ∈ w, ¬ IsBreak c) : Layout o w [⟨o, w⟩]
  | broken {o : Nat} {w gap rest : List Char} {ls : List Line} (flat : ∀ c ∈ w, ¬ IsBreak c)
      (ends : Break gap rest) (more : Layout (o + w.length + gap.length) rest ls) :
      Layout o (w ++ (gap ++ rest)) (⟨o, w⟩ :: ls)

theorem Layout.cons {o : Nat} {c : Char} {cs : List Char} {l : Line} {ls : List Line}
    (h : Layout (o + 1) cs (l :: ls)) (hc : ¬ IsBreak c) :
    Layout o (c :: cs) (⟨o, c :: l.chars⟩ :: ls) := by
  cases h with
  | last flat => exact .last (List.forall_mem_cons.mpr ⟨hc, flat⟩)
  | @broken _ w gap rest _ flat hb more =>
    rw [show o + 1 + w.length = o + (c :: w).length by simp; omega] at more
    exact .broken (List.forall_mem_cons.mpr ⟨hc, flat⟩) hb more

theorem linesFrom_layout (o : Nat) (cs : List Char) :
    Layout o cs ((linesFrom o cs).1 :: (linesFrom o cs).2) := by
  fun_induction linesFrom o cs with
  | case1 o => exact .last (by simp)
  | case2 o cs rest ih => exact .broken (w := []) (by simp) (.both cs) ih
  | case3 o c cs hpair rest hc ih =>
    have hb : Break [c] cs := by
      rcases hc with rfl | rfl
      · refine .single fun hn => ?_
        obtain ⟨cs, rfl⟩ := List.head?_eq_some_iff.mp hn
        exact hpair cs rfl rfl
      · exact .feed cs
    exact .broken (w := []) (by simp) hb ih
  | case4 o c cs hpair rest hc ih => exact ih.cons hc

theorem lines_layout (cs : List Char) : Layout 0 cs (lines cs) := linesFrom_layout 0 cs

theorem Layout.head_start {o : Nat} {cs : List Char} {l : Line} {ls : List Line}
    (h : Layout o cs (l :: ls)) : l.start = o := by
  cases h <;> rfl

/-- There is a first line, even in a text without characters. -/
theorem Layout.exists_head {o : Nat} {cs : List Char} {ls : List Line} (h : Layout o cs ls) :
    ∃ m ms, ls = m :: ms := by
  cases h with
  | last => exact ⟨_, _, rfl⟩
  | broken => exact ⟨_, _, rfl⟩

theorem Layout.start_le {o : Nat} {cs : List Char} {ls : List Line} (h : Layout o cs ls) :
    ∀ l ∈ ls, o ≤ l.start := by
  induction h with
  | last => simp
  | broken _ _ _ ih =>
    intro l hl
    rcases List.mem_cons.mp hl with rfl | hl
    · exact Nat.le_refl _
    · have := ih l hl
      omega

theorem Layout.stop_le {o : Nat} {cs : List Char} {l : Line} {ls : List Line}
    (h : Layout o cs (l :: ls)) : ∀ m ∈ ls, l.stop ≤ m.start := by
  cases h with
  | last => simp
  | broken _ _ more =>
    intro m hm
    exact Nat.le_of_add_right_le (more.start_le m hm)

/-- The lines from a later one on lay out the text from where it starts. -/
theorem Layout.drop {text : List Char} {o i : Nat} {cs : List Char} {l : Line} {ls : List Line}
    (h : Layout o cs ls) (hcs : text.drop o = cs) (hl : ls[i]? = some l) :
    Layout l.start (text.drop l.start) (ls.drop i) := by
  induction h generalizing i with
  | last flat =>
    cases i with
    | zero =>
      cases hl
      rw [hcs]
      exact .last flat
    | succ i => simp at hl
  | @broken o w gap rest ls flat ends more ih =>
    cases i with
    | zero =>
      cases hl
      rw [hcs]
      exact .broken flat ends more
    | succ i =>
      refine ih ?_ hl
      rw [← List.drop_drop, ← List.drop_drop, hcs, List.drop_left, List.drop_left]

end Callees.Text

namespace Callees.Document

open Text

/-- What the search for a line gives is a line that starts no later. -/
theorem lineOf_get {a n i : Nat} {l : Line} {ls : List Line} (h : lineOf a n ls = some (i, l)) :
    n ≤ i ∧ ls[i - n]? = some l ∧ l.start ≤ a := by
  induction ls generalizing n with
  | nil => simp [lineOf] at h
  | cons m ls ih =>
    rw [lineOf] at h
    split at h
    · next hm =>
      cases hr : lineOf a (n + 1) ls with
      | none =>
        simp only [hr, Option.none_or, Option.some.injEq, Prod.mk.injEq] at h
        obtain ⟨rfl, rfl⟩ := h
        exact ⟨Nat.le_refl n, by simp, hm⟩
      | some r =>
        simp only [hr, Option.some_or, Option.some.injEq] at h
        obtain ⟨hn, hget, hle⟩ := ih (h ▸ hr)
        refine ⟨Nat.le_of_succ_le hn, ?_, hle⟩
        rw [show i - n = i - (n + 1) + 1 by omega, List.getElem?_cons_succ]
        exact hget
    · cases h

theorem le_lineOf {a n i : Nat} {l : Line} {ls : List Line} (h : lineOf a n ls = some (i, l)) :
    n ≤ i := (lineOf_get h).1

/-- A later offset is on the same line or on a later one. -/
theorem lineOf_mono {a b n i : Nat} {l : Line} {ls : List Line} (hab : a ≤ b)
    (h : lineOf a n ls = some (i, l)) :
    ∃ j m, lineOf b n ls = some (j, m) ∧ (i < j ∨ (i = j ∧ l = m)) := by
  induction ls generalizing n with
  | nil => simp [lineOf] at h
  | cons m ls ih =>
    rw [lineOf] at h ⊢
    split at h
    · next hm =>
      rw [if_pos (Nat.le_trans hm hab)]
      cases hr : lineOf a (n + 1) ls with
      | some r =>
        simp only [hr, Option.some_or, Option.some.injEq] at h
        obtain ⟨j, m', hb, hj⟩ := ih (h ▸ hr)
        exact ⟨j, m', by simp [hb], hj⟩
      | none =>
        simp only [hr, Option.none_or, Option.some.injEq, Prod.mk.injEq] at h
        obtain ⟨rfl, rfl⟩ := h
        cases hb : lineOf b (n + 1) ls with
        | none => exact ⟨n, m, rfl, .inr ⟨rfl, rfl⟩⟩
        | some r => exact ⟨r.1, r.2, rfl, .inl (le_lineOf (i := r.1) (l := r.2) hb)⟩
    · cases h

theorem positionAt_mono (d : Document) {a b : Nat} (hab : a ≤ b) :
    d.positionAt a ≤ d.positionAt b := by
  unfold positionAt
  simp only [Int.toNat_natCast]
  have hmin : min a d.chars.length ≤ min b d.chars.length := by omega
  cases ha : lineOf (min a d.chars.length) 0 d.lines with
  | none => exact Position.le_iff.mpr (by simp; omega)
  | some r =>
    obtain ⟨j, m, hb, hj⟩ := lineOf_mono (i := r.1) (l := r.2) hmin ha
    rw [hb]
    refine Position.le_iff.mpr ?_
    rcases hj with hlt | ⟨heq, rfl⟩
    · exact .inl hlt
    · exact .inr ⟨heq, by simp only; omega⟩

theorem line_mono (d : Document) {a b : Nat} (hab : a ≤ b) :
    (d.positionAt a).line ≤ (d.positionAt b).line := by
  have hle := Position.le_iff.mp (d.positionAt_mono hab)
  omega

theorem lineOf_before {a n : Nat} {l : Line} {ls : List Line} (h : a < l.start) :
    lineOf a n (l :: ls) = none := if_neg (Nat.not_le.mpr h)

/-- Lines that start at or before an offset and are not the last of those do not matter. -/
theorem lineOf_drop {o a n i : Nat} {cs : List Char} {l : Line} {ls : List Line}
    (h : Layout o cs ls) (hl : ls[i]? = some l) (ha : l.start ≤ a) :
    lineOf a n ls = lineOf a (n + i) (ls.drop i) := by
  induction h generalizing n i with
  | last =>
    cases i with
    | zero => rfl
    | succ i => simp at hl
  | @broken o w gap rest ls flat ends more ih =>
    cases i with
    | zero => rfl
    | succ i =>
      rw [List.getElem?_cons_succ] at hl
      have hstart := more.start_le l (List.mem_of_getElem? hl)
      rw [lineOf, if_pos (show o ≤ a by omega), ih hl, List.drop_succ_cons, Nat.add_right_comm,
        Nat.add_assoc n i 1]
      cases hd : ls.drop i with
      | nil =>
        have := List.drop_eq_nil_iff.mp hd
        have := (List.getElem?_eq_some_iff.mp hl).1
        omega
      | cons m ms =>
        have hm : m = l := by
          rw [← List.head?_drop, hd] at hl
          exact Option.some.inj hl
        rw [hm, lineOf, if_pos ha]
        cases lineOf a (n + (i + 1) + 1) ms <;> rfl

/-- A character of a text stands on its line, and so does the end of it, or it is part of the break
after that line. -/
theorem lineOf_cases {text : List Char} {o a n : Nat} {cs : List Char} {ls : List Line}
    (h : Layout o cs ls) (hcs : text.drop o = cs) (ho : o ≤ a) (ha : a < o + cs.length) :
    ∃ i l, lineOf a n ls = some (i, l) ∧ l.start ≤ a ∧
      ((a < l.stop ∧ text[a]? = l.chars[a - l.start]? ∧ lineOf (a + 1) n ls = some (i, l)) ∨
        (l.stop ≤ a ∧ ∃ c, text[a]? = some c ∧ IsBreak c)) := by
  have hat : text[a]? = cs[a - o]? := by
    rw [← hcs, List.getElem?_drop, Nat.add_sub_cancel' ho]
  induction h generalizing n with
  | @last o w flat =>
    refine ⟨n, ⟨o, w⟩, by simp [lineOf, ho], ho, .inl ⟨ha, hat, ?_⟩⟩
    simp [lineOf, Nat.le_succ_of_le ho]
  | @broken o w gap rest ls flat ends more ih =>
    have hgap : gap ≠ [] := by cases ends <;> simp
    have hlen := List.length_pos_iff.mpr hgap
    obtain ⟨m, ms, rfl⟩ := more.exists_head
    have hm := more.head_start
    rcases Nat.lt_or_ge a (o + w.length + gap.length) with hlt | hge
    · refine ⟨n, ⟨o, w⟩, ?_, ho, ?_⟩
      · rw [lineOf, if_pos ho, lineOf_before (by omega)]
        rfl
      · rcases Nat.lt_or_ge a (o + w.length) with hw | hw
        · refine .inl ⟨hw, ?_, ?_⟩
          · rw [hat, List.getElem?_append_left (by omega)]
          · rw [lineOf, if_pos (Nat.le_succ_of_le ho), lineOf_before (by omega)]
            rfl
        · refine .inr ⟨hw, ?_⟩
          rw [hat, List.getElem?_append_right (by omega), List.getElem?_append_left (by omega)]
          have hlt' : a - o - w.length < gap.length := by omega
          exact ⟨_, List.getElem?_eq_getElem hlt', ends.isBreak _ (List.getElem_mem hlt')⟩
    · have hrest : text.drop (o + w.length + gap.length) = rest := by
        rw [← List.drop_drop, ← List.drop_drop, hcs, List.drop_left, List.drop_left]
      simp only [List.length_append] at ha
      obtain ⟨i, l, hi, hl, hcase⟩ := ih (n := n + 1) hrest hge (by omega) (by
        rw [← hrest, List.getElem?_drop, Nat.add_sub_cancel' hge])
      refine ⟨i, l, ?_, hl, hcase.imp (fun ⟨h1, h2, h3⟩ => ⟨h1, h2, ?_⟩) id⟩
      · rw [lineOf, if_pos ho, hi]
        rfl
      · rw [lineOf, if_pos (Nat.le_succ_of_le ho), h3]
        rfl

theorem positionAt_eq (d : Document) {a i : Nat} {l : Line} (ha : a ≤ d.chars.length)
    (h : lineOf a 0 d.lines = some (i, l)) :
    d.positionAt a = ⟨i, min (a - l.start) l.chars.length⟩ := by
  simp only [positionAt, Int.toNat_natCast, Nat.min_eq_left ha, h]

theorem lines_cases (d : Document) {a : Nat} (ha : a < d.chars.length) :
    ∃ i l, lineOf a 0 d.lines = some (i, l) ∧ l.start ≤ a ∧
      ((a < l.stop ∧ d.chars[a]? = l.chars[a - l.start]? ∧ lineOf (a + 1) 0 d.lines = some (i, l)) ∨
        (l.stop ≤ a ∧ ∃ c, d.chars[a]? = some c ∧ IsBreak c)) :=
  lineOf_cases (lines_layout d.chars) rfl (Nat.zero_le a) (by omega)

/-- The end of a character is on the same line unless it is a break. -/
theorem positionAt_succ_line (d : Document) {a : Nat} {c : Char} (h : d.chars[a]? = some c)
    (hc : ¬ IsBreak c) : (d.positionAt (a + 1 : Nat)).line = (d.positionAt a).line := by
  have ha := (List.getElem?_eq_some_iff.mp h).1
  obtain ⟨i, l, hi, -, ⟨-, -, hi'⟩ | ⟨-, b, hb, hbreak⟩⟩ := d.lines_cases ha
  · rw [d.positionAt_eq (by omega) hi, d.positionAt_eq ha hi']
  · cases h.symm.trans hb
    exact absurd hbreak hc

end Callees.Document

import Callees.Proofs.Lines

namespace Callees.Text

/-- Between two lines there is a break. -/
theorem Layout.stop_lt {o : Nat} {cs : List Char} {l : Line} {ls : List Line}
    (h : Layout o cs (l :: ls)) : ∀ m ∈ ls, l.stop < m.start := by
  cases h with
  | last => simp
  | @broken _ w gap rest _ flat ends more =>
    intro m hm
    have hgap : gap ≠ [] := by cases ends <;> simp
    have hlen := List.length_pos_iff.mpr hgap
    have hle := more.start_le m hm
    simp only [Line.stop]
    omega

/-- Each line ends before the next one starts. -/
theorem Layout.pairwise {o : Nat} {cs : List Char} {ls : List Line} (h : Layout o cs ls) :
    ls.Pairwise fun l m => l.stop < m.start := by
  induction h with
  | last flat => exact List.pairwise_singleton ..
  | broken flat ends more ih =>
    exact List.pairwise_cons.mpr ⟨(Layout.broken flat ends more).stop_lt, ih⟩

theorem Layout.stop_le_length {o : Nat} {cs : List Char} {ls : List Line} (h : Layout o cs ls) :
    ∀ l ∈ ls, l.stop ≤ o + cs.length := by
  induction h with
  | last => simp [Line.stop]
  | broken flat ends more ih =>
    intro l hl
    simp only [List.length_append]
    rcases List.mem_cons.mp hl with rfl | hl
    · simp only [Line.stop]
      omega
    · have := ih l hl
      omega

end Callees.Text

namespace Callees.Document

open Text

variable (d : Document)

theorem stop_le_length {i : Nat} {l : Line} (hl : d.lines[i]? = some l) :
    l.stop ≤ d.chars.length := by
  have h := (lines_layout d.chars).stop_le_length l (List.mem_of_getElem? hl)
  omega

/-- From the start of a line to its end, both included, a line is found to be the one. -/
theorem lineOf_of_line {i a : Nat} {l : Line} (hl : d.lines[i]? = some l) (ha : l.start ≤ a)
    (ha' : a ≤ l.stop) : lineOf a 0 d.lines = some (i, l) := by
  have hlay : Layout 0 d.chars d.lines := lines_layout d.chars
  rw [lineOf_drop hlay hl ha, Nat.zero_add]
  replace hlay := hlay.drop rfl hl
  cases hd : d.lines.drop i with
  | nil =>
    have := List.drop_eq_nil_iff.mp hd
    have := (List.getElem?_eq_some_iff.mp hl).1
    omega
  | cons m ms =>
    have hm : m = l := by
      rw [← List.head?_drop, hd] at hl
      exact Option.some.inj hl
    subst hm
    rw [hd] at hlay
    rw [lineOf, if_pos ha]
    cases ms with
    | nil => rfl
    | cons k ks =>
      have := hlay.stop_lt k List.mem_cons_self
      rw [lineOf_before (by omega)]
      rfl

theorem positionAt_of_line {i k : Nat} {l : Line} (hl : d.lines[i]? = some l)
    (hk : k ≤ l.chars.length) : d.positionAt (l.start + k : Nat) = ⟨i, k⟩ := by
  have hstop := d.stop_le_length hl
  simp only [Line.stop] at hstop
  have hof := d.lineOf_of_line hl (Nat.le_add_right l.start k) (Nat.add_le_add_left hk _)
  rw [d.positionAt_eq (by omega) hof, Nat.add_sub_cancel_left, Nat.min_eq_left hk]

theorem offsetAt_of_line {p : Position} {l : Line} (hl : d.lines[p.line]? = some l) :
    d.offsetAt p = l.start + min p.character l.chars.length := by
  simp only [offsetAt, hl]

theorem offsetAt_past {p : Position} (hl : d.lines[p.line]? = none) :
    d.offsetAt p = d.chars.length := by
  simp only [offsetAt, hl]

theorem first_line (d : Document) : ∃ l, d.lines[0]? = some l ∧ l.start = 0 :=
  ⟨(linesFrom 0 d.chars).1, rfl, (linesFrom_layout 0 d.chars).head_start⟩

theorem positionAt_zero (d : Document) : d.positionAt (0 : Nat) = ⟨0, 0⟩ := by
  obtain ⟨l, hl, hstart⟩ := d.first_line
  have hfirst := d.positionAt_of_line hl (Nat.zero_le _)
  rwa [hstart] at hfirst

/-- A position past the end of its line is cut down to that end. -/
theorem positionAt_offsetAt_of_line {p : Position} {l : Line} (hl : d.lines[p.line]? = some l) :
    d.positionAt (d.offsetAt p) = ⟨p.line, min p.character l.chars.length⟩ := by
  rw [d.offsetAt_of_line hl]
  exact d.positionAt_of_line hl (Nat.min_le_right ..)

/-- The position of an offset is on one of the lines, at its end at most. -/
theorem positionAt_stands (o : Nat) : ∃ l, d.lines[(d.positionAt o).line]? = some l ∧
    (d.positionAt o).character ≤ l.chars.length := by
  have hpos : 0 < d.lines.length := List.length_pos_iff.mpr (lines_ne_nil d.chars)
  simp only [positionAt]
  split
  · next n l h => exact ⟨l, (lineOf_get h).2.1, Nat.min_le_right ..⟩
  · exact ⟨d.lines[0], List.getElem?_eq_getElem hpos, Nat.zero_le _⟩

theorem positionAt_line_lt (o : Nat) : (d.positionAt o).line < d.lineCount := by
  obtain ⟨l, hl, -⟩ := d.positionAt_stands o
  exact (List.getElem?_eq_some_iff.mp hl).1

theorem positionAt_offsetAt_le (p : Position) : d.positionAt (d.offsetAt p) ≤ p := by
  rw [Position.le_iff]
  cases hl : d.lines[p.line]? with
  | none =>
    have hcount : d.lineCount ≤ p.line := List.getElem?_eq_none_iff.mp hl
    have := d.positionAt_line_lt (d.offsetAt p)
    omega
  | some l =>
    rw [d.positionAt_offsetAt_of_line hl]
    exact .inr ⟨rfl, Nat.min_le_left ..⟩

/-- A character that is no break stands on a line. -/
theorem line_of_char {a : Nat} {c : Char} (h : d.chars[a]? = some c) (hc : ¬ IsBreak c) :
    ∃ (i : Nat) (l : Line), d.lines[i]? = some l ∧ l.start ≤ a ∧ a < l.stop := by
  obtain ⟨i, l, hi, hle, ⟨hlt, -⟩ | ⟨-, b, hb, hbreak⟩⟩ :=
    d.lines_cases (List.getElem?_eq_some_iff.mp h).1
  · exact ⟨i, l, (lineOf_get hi).2.1, hle, hlt⟩
  · cases h.symm.trans hb
    exact absurd hbreak hc

/-- Characters without a break among them stand on one line, and so does the end of the last. -/
theorem line_of_run {a n : Nat} (hn : 0 < n)
    (h : ∀ k < n, ∃ c, d.chars[a + k]? = some c ∧ ¬ IsBreak c) :
    ∃ (i : Nat) (l : Line), d.lines[i]? = some l ∧ l.start ≤ a ∧ a + n ≤ l.stop := by
  induction n with
  | zero => exact absurd hn (Nat.lt_irrefl 0)
  | succ n ih =>
    obtain ⟨c, hc, hbreak⟩ := h n (Nat.lt_succ_self n)
    cases Nat.eq_zero_or_pos n with
    | inl hzero =>
      subst hzero
      exact d.line_of_char hc hbreak
    | inr hpos =>
      obtain ⟨i, l, hl, hle, hstop⟩ := ih hpos fun k hk => h k (Nat.lt_succ_of_lt hk)
      obtain ⟨j, m, hm, hle', hlt⟩ := d.line_of_char hc hbreak
      have hi := d.lineOf_of_line hl (by omega) hstop
      have hj := d.lineOf_of_line hm hle' (Nat.le_of_lt hlt)
      cases hi.symm.trans hj
      exact ⟨i, l, hl, hle, hlt⟩

variable {d}

theorem positionAt_lt_succ {a : Nat} {c : Char} (h : d.chars[a]? = some c) (hc : ¬ IsBreak c) :
    d.positionAt a < d.positionAt (a + 1 : Nat) := by
  obtain ⟨i, l, hl, hle, hlt⟩ := d.line_of_char h hc
  obtain ⟨k, rfl⟩ := Nat.exists_eq_add_of_le hle
  simp only [Line.stop] at hlt
  rw [Nat.add_assoc, d.positionAt_of_line hl (by omega), d.positionAt_of_line hl (by omega)]
  exact Position.lt_iff.mpr (.inr ⟨rfl, Nat.lt_succ_self k⟩)

/-- Cutting a position down to its line does not take it back behind a character: if the character comes
after it then, it did so before. -/
theorem le_positionAt {p : Position} {a : Nat} {c : Char} (hp : d.offsetAt p ≤ a)
    (h : d.chars[a]? = some c) (hc : ¬ IsBreak c) : p ≤ d.positionAt a := by
  have hmono := d.positionAt_mono hp
  obtain ⟨i, l, hl, hle, hlt⟩ := d.line_of_char h hc
  obtain ⟨k, rfl⟩ := Nat.exists_eq_add_of_le hle
  simp only [Line.stop] at hlt
  rw [d.positionAt_of_line hl (by omega)] at hmono ⊢
  cases hline : d.lines[p.line]? with
  | none =>
    have := d.offsetAt_past hline
    have := (List.getElem?_eq_some_iff.mp h).1
    omega
  | some m =>
    rw [d.positionAt_offsetAt_of_line hline] at hmono
    rw [d.offsetAt_of_line hline] at hp
    rw [Position.le_iff] at hmono ⊢
    rcases hmono with hlt' | ⟨heq, -⟩
    · exact .inl hlt'
    · simp only at heq
      subst heq
      cases hl.symm.trans hline
      exact .inr ⟨rfl, show p.character ≤ k by omega⟩

/-- Characters without a break among them have their positions side by side, and are found there again. -/
theorem position_in_run {a n k : Nat} (hn : 0 < n)
    (h : ∀ k < n, ∃ c, d.chars[a + k]? = some c ∧ ¬ IsBreak c) (hk : k ≤ n) :
    d.positionAt (a + k : Nat) = ⟨(d.positionAt a).line, (d.positionAt a).character + k⟩ ∧
      d.offsetAt ⟨(d.positionAt a).line, (d.positionAt a).character + k⟩ = a + k := by
  obtain ⟨i, l, hl, hle, hstop⟩ := d.line_of_run hn h
  obtain ⟨j, rfl⟩ := Nat.exists_eq_add_of_le hle
  simp only [Line.stop] at hstop
  rw [Nat.add_assoc, d.positionAt_of_line hl (show j ≤ _ by omega),
    d.positionAt_of_line hl (show j + k ≤ _ by omega)]
  refine ⟨rfl, ?_⟩
  rw [d.offsetAt_of_line hl, Nat.min_eq_left (show j + k ≤ _ by omega)]

end Callees.Document

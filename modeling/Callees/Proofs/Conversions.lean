import Callees.Proofs.Offsets

namespace Callees.Text

/-- An offset between the two characters of a `\r\n`. -/
def SplitsBreak (text : List Char) (o : Nat) : Prop :=
  ∃ i, o = i + 1 ∧ text[i]? = some '\r' ∧ text[i + 1]? = some '\n'

variable {text cs : List Char} {o a : Nat}

/-- On a line behind its first character, no break is split. -/
theorem not_splitsBreak_flat {w rest : List Char} (hw : text.drop o = w ++ rest)
    (flat : ∀ c ∈ w, ¬ IsBreak c) (ho : o < a) (ha : a ≤ o + w.length) : ¬ SplitsBreak text a := by
  rintro ⟨i, rfl, hcr, -⟩
  obtain ⟨k, rfl⟩ := Nat.exists_eq_add_of_le (Nat.le_of_lt_succ ho)
  rw [← List.getElem?_drop, hw, List.getElem?_append_left (by omega)] at hcr
  exact flat '\r' (List.mem_of_getElem? hcr) (.inl rfl)

/-- Nor is one where a line starts: a `\r` that stands alone has no `\n` behind it. -/
theorem Break.not_splitsBreak {gap rest : List Char} (ends : Break gap rest)
    (hgap : text.drop o = gap ++ rest) : ¬ SplitsBreak text (o + gap.length) := by
  have hat (k : Nat) : text[o + k]? = (gap ++ rest)[k]? := by rw [← hgap, List.getElem?_drop]
  rintro ⟨i, hi, hcr, hlf⟩
  cases ends with
  | both =>
    obtain rfl : i = o + 1 := by simpa using hi.symm
    rw [hat 1] at hcr
    cases hcr
  | feed =>
    obtain rfl : i = o := by simpa using hi.symm
    rw [show text[i]? = _ from hat 0] at hcr
    cases hcr
  | single hne =>
    obtain rfl : i = o := by simpa using hi.symm
    rw [hat 1] at hlf
    exact hne (by simpa [List.head?_eq_getElem?] using hlf)

/-- An offset stands on the line that is found for it, its end included, or it splits the break right after
that line. -/
theorem Layout.offset_cases {n : Nat} {ls : List Line} (h : Layout o cs ls) (hcs : text.drop o = cs)
    (ho : o ≤ a) (ha : a ≤ o + cs.length) (hstart : ¬ SplitsBreak text o) :
    ∃ i l, Document.lineOf a n ls = some (i, l) ∧ l.start ≤ a ∧
      ((a ≤ l.stop ∧ ¬ SplitsBreak text a) ∨ (a = l.stop + 1 ∧ SplitsBreak text a)) := by
  have hline {o a : Nat} {w rest : List Char} (hw : text.drop o = w ++ rest)
      (flat : ∀ c ∈ w, ¬ IsBreak c) (ho : o ≤ a) (ha : a ≤ o + w.length)
      (hstart : ¬ SplitsBreak text o) : ¬ SplitsBreak text a := by
    rcases Nat.eq_or_lt_of_le ho with rfl | hlt
    · exact hstart
    · exact not_splitsBreak_flat hw flat hlt ha
  induction h generalizing n with
  | @last o w flat =>
    refine ⟨n, ⟨o, w⟩, by simp [Document.lineOf, ho], ho, .inl ⟨ha, ?_⟩⟩
    rw [← List.append_nil w] at hcs
    exact hline hcs flat ho ha hstart
  | @broken o w gap rest ls flat ends more ih =>
    have hgap : text.drop (o + w.length) = gap ++ rest := by
      rw [← List.drop_drop, hcs, List.drop_left]
    have hrest : text.drop (o + w.length + gap.length) = rest := by
      rw [← List.drop_drop, hgap, List.drop_left]
    obtain ⟨m, ms, rfl⟩ := more.exists_head
    have hm := more.head_start
    rcases Nat.lt_or_ge a (o + w.length + gap.length) with hlt | hge
    · refine ⟨n, ⟨o, w⟩, ?_, ho, ?_⟩
      · rw [Document.lineOf, if_pos ho, Document.lineOf_before (by omega)]
        rfl
      · rcases Nat.lt_or_ge (o + w.length) a with hw | hw
        · -- only a break of two characters has room between its ends
          have hat (k : Nat) : text[o + w.length + k]? = (gap ++ rest)[k]? := by
            rw [← hgap, List.getElem?_drop]
          cases ends with
          | both =>
            obtain rfl : a = o + w.length + 1 := Nat.le_antisymm (Nat.le_of_lt_succ hlt) hw
            exact .inr ⟨rfl, _, rfl, hat 0, hat 1⟩
          | feed | single => exact absurd hlt (Nat.not_lt.mpr hw)
        · exact .inl ⟨hw, hline hcs flat ho hw hstart⟩
    · simp only [List.length_append] at ha
      obtain ⟨i, l, hi, hcases⟩ :=
        ih (n := n + 1) hrest hge (by omega) (ends.not_splitsBreak hgap)
      refine ⟨i, l, ?_, hcases⟩
      rw [Document.lineOf, if_pos ho, hi]
      rfl

end Callees.Text

namespace Callees.Document

open Text

variable (d : Document)

/-- Going to a position and back again leads to the offset itself, or to the end of the line before the break
that it splits. -/
theorem offsetAt_positionAt {o : Nat} (ho : o ≤ d.chars.length) :
    (¬ SplitsBreak d.chars o → d.offsetAt (d.positionAt o) = o) ∧
      (SplitsBreak d.chars o → d.offsetAt (d.positionAt o) = o - 1) := by
  have hzero : ¬ SplitsBreak d.chars 0 := by
    rintro ⟨i, hi, -⟩
    exact absurd hi (Nat.succ_ne_zero i).symm
  obtain ⟨i, l, hi, hle, hcases⟩ :=
    (lines_layout d.chars).offset_cases (n := 0) rfl (Nat.zero_le o) (by omega) hzero
  have hget : d.lines[i]? = some l := (lineOf_get hi).2.1
  rw [d.positionAt_eq ho hi, d.offsetAt_of_line hget]
  simp only [Line.stop] at hcases ⊢
  rcases hcases with ⟨hstop, hnot⟩ | ⟨hstop, hsplits⟩
  · exact ⟨fun _ => by omega, fun hsplits => absurd hsplits hnot⟩
  · exact ⟨fun hnot => absurd hsplits hnot, fun _ => by omega⟩

/-- Positions in the order of reading have offsets in that order, past the ends of lines and of the text too. -/
theorem offsetAt_mono {p q : Position} (h : p ≤ q) : d.offsetAt p ≤ d.offsetAt q := by
  cases hq : d.lines[q.line]? with
  | none =>
    rw [d.offsetAt_past hq]
    cases hp : d.lines[p.line]? with
    | none => exact Nat.le_of_eq (d.offsetAt_past hp)
    | some l =>
      have hstop := d.stop_le_length hp
      rw [d.offsetAt_of_line hp]
      simp only [Line.stop] at hstop
      omega
  | some m =>
    obtain ⟨hlt, rfl⟩ := List.getElem?_eq_some_iff.mp hq
    rcases Position.le_iff.mp h with hline | ⟨heq, hcharacter⟩
    · have hp : d.lines[p.line]? = some d.lines[p.line] := List.getElem?_eq_getElem (by omega)
      have hnext := List.pairwise_iff_getElem.mp (lines_layout d.chars).pairwise p.line q.line
        (by exact Nat.lt_trans hline hlt) hlt hline
      change d.lines[p.line].stop < d.lines[q.line].start at hnext
      rw [d.offsetAt_of_line hp, d.offsetAt_of_line hq]
      simp only [Line.stop] at hnext
      omega
    · have hp : d.lines[p.line]? = some d.lines[q.line] := by rw [heq, hq]
      rw [d.offsetAt_of_line hp, d.offsetAt_of_line hq]
      omega

/-- Numbers before the text count as its start. -/
theorem positionAt_mono_int {a b : Int} (h : a ≤ b) : d.positionAt a ≤ d.positionAt b := by
  have hnat (x : Int) : d.positionAt x = d.positionAt (x.toNat : Nat) := rfl
  rw [hnat a, hnat b]
  exact d.positionAt_mono (Int.toNat_le_toNat h)

theorem slice_append {cs : List Char} {x y z : Nat} (hxy : x ≤ y) (hyz : y ≤ z) :
    slice cs x y ++ slice cs y z = slice cs x z := by
  have h := List.take_append_drop (y - x) ((cs.take z).drop x)
  rwa [List.take_drop, List.drop_drop, Nat.add_sub_cancel' hxy, List.take_take,
    Nat.min_eq_left hyz] at h

/-- Offsets and positions turn into each other without drift: an offset comes back, unless it lies inside a
`\r\n`, which counts as the end of its line; a position on a line comes back; both ways keep the order, of
what has to be cut down as well; and so texts of adjacent spans add up. -/
theorem conversion_without_drift (d : Document) :
    (∀ o ≤ d.chars.length, (¬ SplitsBreak d.chars o → d.offsetAt (d.positionAt o) = o) ∧
      (SplitsBreak d.chars o → d.offsetAt (d.positionAt o) = o - 1)) ∧
    (∀ (p : Position) (l : Line), d.lines[p.line]? = some l → p.character ≤ l.chars.length →
      d.positionAt (d.offsetAt p) = p) ∧
    (∀ p q : Position, p ≤ q → d.offsetAt p ≤ d.offsetAt q) ∧
    (∀ a b : Int, a ≤ b → d.positionAt a ≤ d.positionAt b) ∧
    ∀ (a b c : Position) (hab : a ≤ b) (hbc : b ≤ c),
      d.textIn ⟨a, b, hab⟩ ++ d.textIn ⟨b, c, hbc⟩ = d.textIn ⟨a, c, Position.le_trans hab hbc⟩ := by
  refine ⟨fun o ho => d.offsetAt_positionAt ho, fun p l hl hp => ?_, fun p q => d.offsetAt_mono,
    fun a b => d.positionAt_mono_int, fun a b c hab hbc => ?_⟩
  · rw [d.positionAt_offsetAt_of_line hl, Nat.min_eq_left hp]
  · rw [textIn, textIn, textIn, charsIn, charsIn, charsIn, ← String.ofList_append,
      slice_append (d.offsetAt_mono hab) (d.offsetAt_mono hbc)]

/-- A `\r\n` right before a `\r` that stands alone, and a break at the end. -/
def breaks : Document := ⟨"file:///w/a.js", "a\r\n\rb\n", none, 0⟩

theorem conversion_without_drift_breaks :
    SplitsBreak breaks.chars 2 ∧ breaks.offsetAt (breaks.positionAt (2 : Nat)) = 2 - 1 ∧
    ¬ SplitsBreak breaks.chars 3 ∧ breaks.offsetAt (breaks.positionAt (3 : Nat)) = 3 ∧
    breaks.lines[2]? = some ⟨4, ['b']⟩ ∧ breaks.positionAt (breaks.offsetAt ⟨2, 1⟩) = ⟨2, 1⟩ ∧
    breaks.offsetAt ⟨0, 9⟩ ≤ breaks.offsetAt ⟨1, 7⟩ ∧ breaks.positionAt (-4) ≤ breaks.positionAt 99 ∧
    breaks.textIn ⟨⟨0, 0⟩, ⟨0, 9⟩, by decide⟩ ++ breaks.textIn ⟨⟨0, 9⟩, ⟨7, 0⟩, by decide⟩ =
      breaks.textIn ⟨⟨0, 0⟩, ⟨7, 0⟩, by decide⟩ := by
  obtain ⟨hoffset, hposition, hoffsets, hpositions, htexts⟩ := conversion_without_drift breaks
  have hsplits : SplitsBreak breaks.chars 2 := ⟨1, rfl, by decide +kernel, by decide +kernel⟩
  have hwhole : ¬ SplitsBreak breaks.chars 3 := by
    rintro ⟨i, hi, hcr, -⟩
    cases hi
    exact absurd hcr (by decide +kernel)
  have hline : breaks.lines[2]? = some ⟨4, ['b']⟩ := by decide +kernel
  exact ⟨hsplits, (hoffset 2 (by decide +kernel)).2 hsplits, hwhole,
    (hoffset 3 (by decide +kernel)).1 hwhole, hline, hposition ⟨2, 1⟩ _ hline (by decide),
    hoffsets ⟨0, 9⟩ ⟨1, 7⟩ (by decide), hpositions (-4) 99 (by decide),
    htexts ⟨0, 0⟩ ⟨0, 9⟩ ⟨7, 0⟩ (by decide) (by decide)⟩

end Callees.Document

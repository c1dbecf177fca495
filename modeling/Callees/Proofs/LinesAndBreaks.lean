import Callees.Proofs.CallSites
import Callees.Proofs.Conversions

namespace Callees

namespace Text

variable {text cs : List Char} {o : Nat} {ls : List Line}

/-- What stands in a text between each line and the next. -/
def between (text : List Char) : List Line → List (List Char)
  | l :: m :: ls => Document.slice text l.stop m.start :: between text (m :: ls)
  | _ => []

/-- Two lists of pieces in turns. -/
def weave : List (List Char) → List (List Char) → List Char
  | w :: ws, gap :: gaps => w ++ (gap ++ weave ws gaps)
  | ws, _ => ws.flatten

theorem Break.forms {gap rest : List Char} (ends : Break gap rest) :
    gap = ['\r', '\n'] ∨ gap = ['\r'] ∨ gap = ['\n'] := by
  cases ends <;> simp

theorem slice_of_drop {w rest : List Char} (h : text.drop o = w ++ rest) :
    Document.slice text o (o + w.length) = w := by
  apply Document.slice_eq
  intro k hk
  rw [← List.getElem?_drop, h, List.getElem?_append_left hk]

/-- Lines and breaks in turns give the text back. -/
theorem Layout.weave_between (h : Layout o cs ls) (hcs : text.drop o = cs) :
    weave (ls.map Line.chars) (between text ls) = cs := by
  induction h with
  | last flat => exact List.append_nil _
  | @broken o w gap rest ls flat ends more ih =>
    have hgap : text.drop (o + w.length) = gap ++ rest := by
      rw [← List.drop_drop, hcs, List.drop_left]
    have hrest : text.drop (o + w.length + gap.length) = rest := by
      rw [← List.drop_drop, hgap, List.drop_left]
    obtain ⟨m, ms, rfl⟩ := more.exists_head
    rw [between, List.map_cons, weave, ih hrest, Line.stop, more.head_start, slice_of_drop hgap]

end Text

namespace Document

open Text

/-- Where the lines of a document start. -/
def lineStarts (d : Document) : List Nat := d.lines.map Line.start

variable {d : Document} {i : Nat} {l : Line}

/-- A line has its characters from its start on, and is the last or has a break behind it. -/
theorem line_at (hl : d.lines[i]? = some l) :
    (∀ c ∈ l.chars, ¬ IsBreak c) ∧
      ((d.lines[i + 1]? = none ∧ d.chars.drop l.start = l.chars) ∨
        ∃ m gap, d.lines[i + 1]? = some m ∧ m.start = l.stop + gap.length ∧
          Break gap (d.chars.drop m.start) ∧
          d.chars.drop l.start = l.chars ++ (gap ++ d.chars.drop m.start)) := by
  have hlay : Layout l.start (d.chars.drop l.start) (d.lines.drop i) :=
    (lines_layout d.chars).drop rfl hl
  have hnext : d.lines[i + 1]? = (d.lines.drop i)[1]? := List.getElem?_drop.symm
  have hhead : (d.lines.drop i)[0]? = some l := by rw [List.getElem?_drop, Nat.add_zero, hl]
  rw [hnext]
  generalize hstart : l.start = a at hlay ⊢
  generalize hu : d.chars.drop a = u at hlay ⊢
  generalize d.lines.drop i = ms at hlay hhead ⊢
  cases hlay with
  | last flat =>
    cases hhead
    exact ⟨flat, .inl ⟨rfl, rfl⟩⟩
  | @broken _ w gap rest ms flat ends more =>
    cases hhead
    obtain ⟨m, ms, rfl⟩ := more.exists_head
    have hm : m.start = a + w.length + gap.length := more.head_start
    have hrest : d.chars.drop m.start = rest := by
      rw [hm, ← List.drop_drop, ← List.drop_drop, hu, List.drop_left, List.drop_left]
    exact ⟨flat, .inr ⟨m, gap, rfl, hm, by rwa [hrest], by rw [hrest]⟩⟩

theorem slice_line (hl : d.lines[i]? = some l) :
    slice d.chars l.start (l.start + l.chars.length) = l.chars := by
  obtain ⟨-, ⟨-, hdrop⟩ | ⟨m, gap, -, -, -, hdrop⟩⟩ := line_at hl
  · rw [← List.append_nil l.chars] at hdrop
    exact slice_of_drop hdrop
  · exact slice_of_drop hdrop

/-- Neither end of a line lies inside a `\r\n`. -/
theorem not_splitsBreak_of_line {a : Nat} (hl : d.lines[i]? = some l) (ha : l.start ≤ a)
    (ha' : a ≤ l.stop) : ¬ SplitsBreak d.chars a := by
  have hzero : ¬ SplitsBreak d.chars 0 := by
    rintro ⟨k, hk, -⟩
    exact absurd hk (Nat.succ_ne_zero k).symm
  have hstop := d.stop_le_length hl
  obtain ⟨j, m, hj, -, hcases⟩ :=
    (lines_layout d.chars).offset_cases (n := 0) rfl (Nat.zero_le a) (by omega) hzero
  cases (d.lineOf_of_line hl ha ha').symm.trans hj
  rcases hcases with ⟨-, hnot⟩ | ⟨heq, -⟩
  · exact hnot
  · omega

theorem gap_forms {m : Line} (hl : d.lines[i]? = some l) (hm : d.lines[i + 1]? = some m) :
    slice d.chars l.stop m.start = ['\r', '\n'] ∨ slice d.chars l.stop m.start = ['\r'] ∨
      slice d.chars l.stop m.start = ['\n'] := by
  obtain ⟨-, ⟨hnone, -⟩ | ⟨m', gap, hm', hstart, ends, hdrop⟩⟩ := line_at hl
  · cases hnone.symm.trans hm
  · cases hm'.symm.trans hm
    have hgap : d.chars.drop l.stop = gap ++ d.chars.drop m.start := by
      rw [Line.stop, ← List.drop_drop, hdrop, List.drop_left]
    rw [hstart, slice_of_drop hgap]
    exact ends.forms

theorem last_stop (hl : d.lines.getLast? = some l) : l.stop = d.chars.length := by
  rw [List.getLast?_eq_getElem?] at hl
  have hstop := d.stop_le_length hl
  obtain ⟨-, ⟨-, hdrop⟩ | ⟨m, gap, hm, -⟩⟩ := line_at hl
  · have hlength := congrArg List.length hdrop
    rw [List.length_drop] at hlength
    simp only [Line.stop] at hstop ⊢
    omega
  · have hlt := (List.getElem?_eq_some_iff.mp hm).1
    omega

/-- The lines of a document partition its text. There are as many lines as starts. No line has a break in
it, the starts begin with zero and increase, and each line is found at its start. Between two lines
there is one break, no `\r\n` is divided, and the last line ends with the text. So the lines and their
breaks in turns are the text. -/
theorem lines_partition (d : Document) :
    d.lineTexts.length = d.lineStarts.length ∧
    (∀ w ∈ d.lineTexts, ∀ c ∈ w, ¬ IsBreak c) ∧
    d.lineStarts[0]? = some 0 ∧ d.lineStarts.Pairwise (· < ·) ∧
    (∀ (i : Nat) (l : Line), d.lines[i]? = some l →
      slice d.chars l.start (l.start + l.chars.length) = l.chars) ∧
    (∀ (i : Nat) (l m : Line), d.lines[i]? = some l → d.lines[i + 1]? = some m →
      (slice d.chars l.stop m.start = ['\r', '\n'] ∨ slice d.chars l.stop m.start = ['\r'] ∨
        slice d.chars l.stop m.start = ['\n']) ∧
      ¬ SplitsBreak d.chars l.stop ∧ ¬ SplitsBreak d.chars m.start) ∧
    (∀ l : Line, d.lines.getLast? = some l → l.start + l.chars.length = d.chars.length) ∧
    weave d.lineTexts (between d.chars d.lines) = d.chars := by
  have hlay : Layout 0 d.chars d.lines := lines_layout d.chars
  refine ⟨by simp [lineTexts, lineStarts], ?_, ?_, ?_, fun i l hl => slice_line hl, ?_,
    fun l hl => last_stop hl, hlay.weave_between rfl⟩
  · intro w hw
    obtain ⟨l, hl, rfl⟩ := List.mem_map.mp hw
    obtain ⟨i, hi⟩ := List.mem_iff_getElem?.mp hl
    exact (line_at hi).1
  · obtain ⟨l, hl, hstart⟩ := d.first_line
    rw [lineStarts, List.getElem?_map, hl, Option.map_some, hstart]
  · rw [lineStarts, List.pairwise_map]
    apply hlay.pairwise.imp
    intro l m hlt
    simp only [Line.stop] at hlt
    omega
  · intro i l m hl hm
    have hend : l.start ≤ l.stop := Nat.le_add_right ..
    have hbegin : m.start ≤ m.stop := Nat.le_add_right ..
    exact ⟨gap_forms hl hm, not_splitsBreak_of_line hl hend (Nat.le_refl _),
      not_splitsBreak_of_line hm (Nat.le_refl _) hbegin⟩

/-- Breaks of all three kinds right behind each other, and one at the end. -/
def raggedBreaks : Document := ⟨"file:///w/a.js", "a\r\n\r\r\n\nb\r", none, 0⟩

theorem lines_partition_ragged :
    raggedBreaks.lines = [⟨0, ['a']⟩, ⟨3, []⟩, ⟨4, []⟩, ⟨6, []⟩, ⟨7, ['b']⟩, ⟨9, []⟩] ∧
    ['b'] ∈ raggedBreaks.lineTexts ∧ 'b' ∈ ['b'] ∧ ¬ IsBreak 'b' ∧
    slice raggedBreaks.chars 7 8 = ['b'] ∧
    (slice raggedBreaks.chars 4 6 = ['\r', '\n'] ∨ slice raggedBreaks.chars 4 6 = ['\r'] ∨
      slice raggedBreaks.chars 4 6 = ['\n']) ∧
    ¬ SplitsBreak raggedBreaks.chars 4 ∧ ¬ SplitsBreak raggedBreaks.chars 6 ∧
    raggedBreaks.chars.length = 9 ∧
    weave [['a'], [], [], [], ['b'], []]
      [['\r', '\n'], ['\r'], ['\r', '\n'], ['\n'], ['\r']] = raggedBreaks.chars := by
  have hlines : raggedBreaks.lines =
      [⟨0, ['a']⟩, ⟨3, []⟩, ⟨4, []⟩, ⟨6, []⟩, ⟨7, ['b']⟩, ⟨9, []⟩] := by decide +kernel
  have htexts : raggedBreaks.lineTexts = [['a'], [], [], [], ['b'], []] := by
    rw [lineTexts, hlines]
    rfl
  have hgaps : between raggedBreaks.chars raggedBreaks.lines =
      [['\r', '\n'], ['\r'], ['\r', '\n'], ['\n'], ['\r']] := by decide +kernel
  obtain ⟨-, hflat, -, -, hline, hgap, hlast, hweave⟩ := lines_partition raggedBreaks
  have hb : ['b'] ∈ raggedBreaks.lineTexts := by simp [htexts]
  obtain ⟨hform, hstop, hstart⟩ := hgap 2 ⟨4, []⟩ ⟨6, []⟩ (by rw [hlines]; rfl) (by rw [hlines]; rfl)
  rw [htexts, hgaps] at hweave
  exact ⟨hlines, hb, by simp, hflat _ hb 'b' (by simp), hline 4 ⟨7, ['b']⟩ (by rw [hlines]; rfl), hform,
    hstop, hstart, (hlast ⟨9, []⟩ (by rw [hlines]; rfl)).symm, hweave⟩

end Document

end Callees

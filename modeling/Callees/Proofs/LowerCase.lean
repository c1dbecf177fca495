import Mathlib.Data.List.Forall2
import Callees.Text.Classes
import Callees.Text.LetterCase

namespace Callees.Text

/-- The dotted capital I has no entry in the table, but has the form of one. -/
def capitals : List CapitalRun := ⟨0x130, 0x130, 1, -199⟩ :: capitalRuns

/-- Blanks, and the point. -/
def gaps : List (Nat × Nat) := (0x2E, 0x2E) :: blanks

namespace CapitalRun

def low (run : CapitalRun) : Nat := (run.first + run.shift).toNat

def high (run : CapitalRun) : Nat := (run.last + run.shift).toNat

/-- Where the small letters of the run reach as far as other capitals, they interleave with those. -/
def apart (run run' : CapitalRun) : Bool :=
  Nat.blt run.high run'.first || Nat.blt run'.last run.low ||
    run'.step == 2 && (run.low + run'.first) % 2 == 1 && (run.step == 2 || run.first == run.last)

end CapitalRun

-- checked for pairs of runs: for every capital there would be ten times as much to look up
theorem capitals_apart : ∀ run ∈ capitals, ∀ run' ∈ capitals, run.apart run' = true := by decide +kernel

theorem capitals_valid : ∀ run ∈ capitals,
    0 ≤ run.first + run.shift ∧ (run.high < 0xD800 ∨ 0xDFFF < run.low ∧ run.high < 0x110000) := by
  decide +kernel

theorem capitals_solid : ∀ run ∈ capitals, ∀ gap ∈ gaps,
    (run.last < gap.1 ∨ gap.2 < run.first) ∧ (run.high < gap.1 ∨ gap.2 < run.low) := by
  decide +kernel

theorem capitals_ascii : ∀ run ∈ capitals, run.first = 0x41 ∧ run.last = 0x5A ∨ 0x80 ≤ run.first := by
  decide +kernel

/-- Lower case leaves the character as it is, wherever it stands. -/
def Small (c : Char) : Prop := ∀ run ∈ capitals, run.holds c.toNat = false

/-- Neither a blank nor a point. -/
def Solid (c : Char) : Prop := isBlank c = false ∧ (c == '.') = false

instance (c : Char) : Decidable (Small c) := inferInstanceAs (Decidable (∀ run ∈ capitals, _))

instance (c : Char) : Decidable (Solid c) := inferInstanceAs (Decidable (_ ∧ _))

theorem CapitalRun.holds_iff {run : CapitalRun} {n : Nat} : run.holds n = true ↔
    run.first ≤ n ∧ n ≤ run.last ∧ (n - run.first) % run.step = 0 := by
  simp only [holds, Bool.and_eq_true, decide_eq_true_eq, beq_iff_eq, and_assoc]

theorem solid_of_gaps {c : Char} (h : ∀ gap ∈ gaps, c.toNat < gap.1 ∨ gap.2 < c.toNat) : Solid c := by
  obtain ⟨hpoint, hblanks⟩ := List.forall_mem_cons.mp h
  refine ⟨?_, beq_eq_false_iff_ne.mpr ?_⟩
  · rw [isBlank, inRanges]
    split
    · next gap hgap =>
      have hend := List.find?_some hgap
      have hfar := hblanks gap (List.mem_of_find?_eq_some hgap)
      simp only [decide_eq_true_eq, decide_eq_false_iff_not] at hend ⊢
      omega
    · rfl
  · rintro rfl
    exact absurd hpoint (by decide)

section Run

variable {run : CapitalRun} {c : Char} (hrun : run ∈ capitals) (hc : run.holds c.toNat = true)

/-- The small letter of a capital in the run. -/
def CapitalRun.small (run : CapitalRun) (c : Char) : Char := Char.ofNat (c.toNat + run.shift).toNat

include hrun hc

theorem small_toNat : (run.small c).toNat = run.low + (c.toNat - run.first) ∧
    (run.small c).toNat ≤ run.high := by
  obtain ⟨hfirst, hlast, -⟩ := CapitalRun.holds_iff.mp hc
  obtain ⟨hlow, hvalid⟩ := capitals_valid run hrun
  have hn : (c.toNat + run.shift).toNat = run.low + (c.toNat - run.first) := by
    rw [CapitalRun.low]
    omega
  have hhigh : (c.toNat + run.shift).toNat ≤ run.high := by
    rw [CapitalRun.high]
    omega
  have hchar : (c.toNat + run.shift).toNat.isValidChar := by
    refine hvalid.imp (by omega) fun h => ⟨?_, ?_⟩ <;> omega
  have hof : (run.small c).toNat = (c.toNat + run.shift).toNat := by
    rw [CapitalRun.small, Char.ofNat, dif_pos hchar]
    rfl
  rw [hof]
  exact ⟨hn, hhigh⟩

theorem capital_solid : Solid c := by
  obtain ⟨hfirst, hlast, -⟩ := CapitalRun.holds_iff.mp hc
  refine solid_of_gaps fun gap hgap => ?_
  have hfar := (capitals_solid run hrun gap hgap).1
  omega

theorem small_solid : Solid (run.small c) := by
  obtain ⟨hn, hhigh⟩ := small_toNat hrun hc
  refine solid_of_gaps fun gap hgap => ?_
  have hfar := (capitals_solid run hrun gap hgap).2
  omega

theorem small_small : Small (run.small c) := by
  intro run' hrun'
  refine Bool.eq_false_iff.mpr fun hheld => ?_
  obtain ⟨hn, hhigh⟩ := small_toNat hrun hc
  obtain ⟨hfirst, hlast, hstep⟩ := CapitalRun.holds_iff.mp hc
  obtain ⟨hfirst', hlast', hstep'⟩ := CapitalRun.holds_iff.mp hheld
  have hapart := capitals_apart run hrun run' hrun'
  simp only [CapitalRun.apart, Bool.or_eq_true, Bool.and_eq_true, Nat.blt_eq, beq_iff_eq] at hapart
  rcases hapart with (hbelow | habove) | ⟨⟨htwo, hodd⟩, hself⟩
  · omega
  · omega
  · rw [htwo] at hstep'
    rcases hself with htwo | hone
    · rw [htwo] at hstep
      omega
    · omega

end Run

/-- What one character becomes: it stays, or it is a capital and small letters stand for it. -/
inductive Lowered (c : Char) : List Char → Prop
  | stays (small : Small c) : Lowered c [c]
  | changes {e : Char} {rest : List Char} (capital : ¬ Small c) (solid : Solid c)
      (letters : ∀ e' ∈ e :: rest, Small e' ∧ Solid e') : Lowered c (e :: rest)

theorem lowered_held {run : CapitalRun} {c : Char} (hrun : run ∈ capitals) (hc : run.holds c.toNat = true) :
    Lowered c [run.small c] :=
  .changes (fun hsmall => absurd hc (by simp [hsmall run hrun])) (capital_solid hrun hc)
    (List.forall_mem_singleton.mpr ⟨small_small hrun hc, small_solid hrun hc⟩)

theorem lowered_ascii {c : Char} (h : c.toNat < 0x80) : Lowered c [c.toLower] := by
  have hall : ∀ n < 0x80, (Char.ofNat n).toLower =
      if 0x41 ≤ n ∧ n ≤ 0x5A then Char.ofNat (n + 32) else Char.ofNat n := by decide
  have hc := hall c.toNat h
  rw [Char.ofNat_toNat] at hc
  rw [hc]
  split
  · next hupper =>
    have hrun : (⟨0x41, 0x5A, 1, 32⟩ : CapitalRun) ∈ capitals := List.mem_cons_of_mem _ List.mem_cons_self
    exact lowered_held hrun (CapitalRun.holds_iff.mpr ⟨hupper.1, hupper.2, Nat.mod_one _⟩)
  · next hupper =>
    refine .stays fun run hrun => Bool.eq_false_iff.mpr fun hheld => ?_
    obtain ⟨hfirst, hlast, -⟩ := CapitalRun.holds_iff.mp hheld
    have hascii := capitals_ascii run hrun
    omega

theorem lowered_dotted : Lowered 'İ' ['i', Char.ofNat 0x307] :=
  .changes (by decide +kernel) (by decide) (List.forall_mem_cons.mpr
    ⟨by decide +kernel, List.forall_mem_singleton.mpr (by decide +kernel)⟩)

theorem lowered_sigma (final : Bool) : Lowered 'Σ' [Char.ofNat (if final then 0x3C2 else 0x3C3)] := by
  cases final
  · exact .changes (by decide +kernel) (by decide) (List.forall_mem_singleton.mpr (by decide +kernel))
  · exact .changes (by decide +kernel) (by decide) (List.forall_mem_singleton.mpr (by decide +kernel))

theorem lowered_char (c : Char) : Lowered c (lowerChar c) := by
  rw [lowerChar]
  split
  · next hlow => exact lowered_ascii hlow
  split
  · next hdotted =>
    obtain rfl : 'İ' = c := by rw [← Char.ofNat_toNat c, hdotted]
    exact lowered_dotted
  · next hdotted =>
    split
    · next run hrun =>
      have hheld := List.find?_some hrun
      exact lowered_held (List.mem_cons_of_mem _ (List.mem_of_find?_eq_some hrun)) hheld
    · next hnone =>
      refine .stays (List.forall_mem_cons.mpr ⟨?_, fun run hrun => ?_⟩)
      · refine Bool.eq_false_iff.mpr fun hheld => hdotted ?_
        obtain ⟨hfirst, hlast, -⟩ := CapitalRun.holds_iff.mp hheld
        exact Nat.le_antisymm hlast hfirst
      · exact Bool.eq_false_iff.mpr (List.find?_eq_none.mp hnone run hrun)

/-- A text in lower case consists of what its characters become, one after another. -/
theorem lowerFrom_pieces (before cs : List Char) :
    ∃ pieces, lowerFrom before cs = pieces.flatten ∧ List.Forall₂ Lowered cs pieces := by
  induction cs generalizing before with
  | nil => exact ⟨[], rfl, .nil⟩
  | cons c cs ih =>
    obtain ⟨pieces, hpieces, hall⟩ := ih (c :: before)
    rw [lowerFrom, hpieces]
    by_cases hsigma : c.toNat = 0x3A3
    · obtain rfl : 'Σ' = c := by rw [← Char.ofNat_toNat c, hsigma]
      rw [if_pos hsigma]
      exact ⟨_ :: pieces, rfl, .cons (lowered_sigma _) hall⟩
    · rw [if_neg hsigma]
      exact ⟨lowerChar c :: pieces, rfl, .cons (lowered_char c) hall⟩

section Pieces

variable {c : Char} {cs : List Char} {piece : List Char} {pieces : List (List Char)} {q : Char → Bool}

theorem Lowered.all_small (h : Lowered c piece) : ∀ e ∈ piece, Small e := by
  cases h with
  | stays small => exact List.forall_mem_singleton.mpr small
  | changes capital solid letters => exact fun e he => (letters e he).1

theorem Lowered.of_small (h : Lowered c piece) (hc : Small c) : piece = [c] := by
  cases h with
  | stays small => rfl
  | changes capital solid letters => exact absurd hc capital

theorem Lowered.ne_nil (h : Lowered c piece) : piece ≠ [] := by
  cases h <;> exact List.cons_ne_nil _ _

/-- Whether a character is a blank, or a point, shows in each that stands for it. -/
theorem Lowered.all_same (h : Lowered c piece) (hq : ∀ c, Solid c → q c = false) :
    ∀ e ∈ piece, q e = q c := by
  cases h with
  | stays small => exact List.forall_mem_singleton.mpr rfl
  | changes capital solid letters =>
    intro e he
    rw [hq c solid, hq e (letters e he).2]

theorem flatten_small (h : List.Forall₂ Lowered cs pieces) : ∀ e ∈ pieces.flatten, Small e := by
  induction h with
  | nil => exact nofun
  | cons hc _ ih => exact List.forall_mem_append.mpr ⟨hc.all_small, ih⟩

theorem flatten_of_small (h : List.Forall₂ Lowered cs pieces) (hcs : ∀ c ∈ cs, Small c) :
    pieces.flatten = cs := by
  induction h with
  | nil => rfl
  | cons hc _ ih =>
    obtain ⟨hsmall, hcs⟩ := List.forall_mem_cons.mp hcs
    rw [List.flatten_cons, hc.of_small hsmall, ih hcs, List.singleton_append]

theorem flatten_eq_nil (h : List.Forall₂ Lowered cs pieces) : pieces.flatten = [] ↔ cs = [] := by
  cases h with
  | nil => exact Iff.rfl
  | cons hc hcs =>
    exact iff_of_false (List.append_ne_nil_of_left_ne_nil hc.ne_nil _) (List.cons_ne_nil _ _)

theorem flatten_head? (h : List.Forall₂ Lowered cs pieces) (hq : ∀ c, Solid c → q c = false) :
    pieces.flatten.head?.any q = cs.head?.any q := by
  cases h with
  | nil => rfl
  | @cons c piece cs pieces hc hcs =>
    obtain ⟨e, rest, rfl⟩ := List.exists_cons_of_ne_nil hc.ne_nil
    exact hc.all_same hq e List.mem_cons_self

theorem flatten_getLast? (h : List.Forall₂ Lowered cs pieces) (hq : ∀ c, Solid c → q c = false) :
    pieces.flatten.getLast?.any q = cs.getLast?.any q := by
  induction h with
  | nil => rfl
  | @cons c piece cs pieces hc hcs ih =>
    rw [List.flatten_cons]
    cases hcs with
    | nil =>
      rw [List.flatten_nil, List.append_nil, List.getLast?_eq_some_getLast hc.ne_nil]
      exact hc.all_same hq _ (List.getLast_mem _)
    | cons hc' hcs' =>
      have hne := mt (flatten_eq_nil (.cons hc' hcs')).mp (List.cons_ne_nil _ _)
      rw [List.getLast?_append_of_ne_nil _ hne, ih, List.getLast?_cons_cons]

end Pieces

section Lower

variable {q : Char → Bool}

/-- Lower case has nothing to change in what it has made. -/
theorem lower_lower (s : String) : lower (lower s) = lower s := by
  obtain ⟨pieces, hpieces, hall⟩ := lowerFrom_pieces [] s.toList
  obtain ⟨pieces', hpieces', hall'⟩ := lowerFrom_pieces [] (lower s).toList
  have hsmall : ∀ c ∈ (lower s).toList, Small c := by
    rw [lower, hpieces, String.toList_ofList]
    exact flatten_small hall
  rw [lower, hpieces', flatten_of_small hall' hsmall, String.ofList_toList]

theorem lower_head? (hq : ∀ c, Solid c → q c = false) (s : String) :
    (lower s).toList.head?.any q = s.toList.head?.any q := by
  obtain ⟨pieces, hpieces, hall⟩ := lowerFrom_pieces [] s.toList
  rw [lower, hpieces, String.toList_ofList, flatten_head? hall hq]

theorem lower_getLast? (hq : ∀ c, Solid c → q c = false) (s : String) :
    (lower s).toList.getLast?.any q = s.toList.getLast?.any q := by
  obtain ⟨pieces, hpieces, hall⟩ := lowerFrom_pieces [] s.toList
  rw [lower, hpieces, String.toList_ofList, flatten_getLast? hall hq]

theorem lower_eq_empty {s : String} : lower s = "" ↔ s = "" := by
  obtain ⟨pieces, hpieces, hall⟩ := lowerFrom_pieces [] s.toList
  rw [lower, hpieces, String.ofList_eq_empty_iff, flatten_eq_nil hall, String.toList_eq_nil_iff]

end Lower

end Callees.Text

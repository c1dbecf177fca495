import Callees.Proofs.PathNames
import Callees.Text.Lines

namespace Callees.Text

variable {a b p line m : List Char} {lines : List (List Char)}

theorem commonPrefix_left (a b : List Char) : commonPrefix a b <+: a := by
  fun_induction commonPrefix a b with
  | case1 as c bs ih => exact List.cons_prefix_cons.mpr ⟨rfl, ih⟩
  | case2 => exact List.nil_prefix
  | case3 => exact List.nil_prefix

theorem commonPrefix_right (a b : List Char) : commonPrefix a b <+: b := by
  fun_induction commonPrefix a b with
  | case1 as c bs ih => exact List.cons_prefix_cons.mpr ⟨rfl, ih⟩
  | case2 => exact List.nil_prefix
  | case3 => exact List.nil_prefix

/-- No common prefix is longer. -/
theorem prefix_commonPrefix (ha : p <+: a) (hb : p <+: b) : p <+: commonPrefix a b := by
  induction p generalizing a b with
  | nil => exact List.nil_prefix
  | cons c p ih =>
    obtain ⟨as, rfl⟩ := ha
    obtain ⟨bs, rfl⟩ := hb
    rw [List.cons_append, List.cons_append, commonPrefix, if_pos rfl]
    exact List.cons_prefix_cons.mpr ⟨rfl, ih (List.prefix_append ..) (List.prefix_append ..)⟩

/-- A line of nothing but spaces and tabs, if of anything. -/
def Hollow (line : List Char) : Prop := ∀ c ∈ line, isSpaceOrTab c = true

theorem hollow_iff : Hollow line ↔ line.all isSpaceOrTab = true := List.all_eq_true.symm

instance : DecidablePred Hollow := fun _ => inferInstanceAs (Decidable (∀ _ ∈ _, _))

theorem indentOf_begins (line : List Char) : indentOf line <+: line := List.takeWhile_prefix _

theorem indentOf_hollow (line : List Char) : Hollow (indentOf line) :=
  hollow_iff.mpr List.all_takeWhile

theorem indentOf_append (h : Hollow p) (line : List Char) :
    indentOf (p ++ line) = p ++ indentOf line := by
  rw [indentOf, List.takeWhile_append_of_pos h, indentOf]

/-- Spaces and tabs at the start of a line belong to its indent. -/
theorem prefix_indentOf (h : Hollow p) (hp : p <+: line) : p <+: indentOf line := by
  obtain ⟨rest, rfl⟩ := hp
  rw [indentOf_append h]
  exact List.prefix_append ..

theorem margin_cons (line : List Char) (h : lines ≠ []) :
    margin (line :: lines) = commonPrefix (indentOf line) (margin lines) := by
  cases lines with
  | nil => exact absurd rfl h
  | cons => rfl

theorem margin_begins (h : line ∈ lines) : margin lines <+: indentOf line := by
  induction lines with
  | nil => cases h
  | cons first lines ih =>
    by_cases hnil : lines = []
    · subst hnil
      rw [List.mem_singleton.mp h]
      exact List.prefix_refl _
    · rw [margin_cons first hnil]
      rcases List.mem_cons.mp h with rfl | h
      · exact commonPrefix_left ..
      · exact (commonPrefix_right ..).trans (ih h)

theorem margin_hollow (lines : List (List Char)) : Hollow (margin lines) := by
  cases lines with
  | nil => simp [Hollow, margin]
  | cons line lines =>
    intro c hc
    exact indentOf_hollow line c ((margin_begins List.mem_cons_self).subset hc)

/-- No indent that all lines have in common is longer. -/
theorem prefix_margin (hne : lines ≠ []) (h : ∀ line ∈ lines, p <+: indentOf line) :
    p <+: margin lines := by
  induction lines with
  | nil => exact absurd rfl hne
  | cons first lines ih =>
    obtain ⟨hfirst, hlines⟩ := List.forall_mem_cons.mp h
    by_cases hnil : lines = []
    · subst hnil
      exact hfirst
    · rw [margin_cons first hnil]
      exact prefix_commonPrefix hfirst (ih hnil hlines)

/-- The longest run of spaces and tabs with which all lines begin that are not hollow. Where all are
hollow, none is the longest. -/
structure IsMargin (lines : List (List Char)) (m : List Char) : Prop where
  hollow : Hollow m
  common : ∀ line ∈ lines, ¬ Hollow line → m <+: line
  longest : ∀ p, Hollow p → (∃ line ∈ lines, ¬ Hollow line) →
    (∀ line ∈ lines, ¬ Hollow line → p <+: line) → p <+: m

theorem isMargin_margin (lines : List (List Char)) :
    IsMargin lines (margin (lines.filter fun line => !line.all isSpaceOrTab)) := by
  have hkept {line : List Char} : line ∈ lines.filter (fun line => !line.all isSpaceOrTab) ↔
      line ∈ lines ∧ ¬ Hollow line := by
    rw [List.mem_filter, Bool.not_eq_true', hollow_iff, Bool.not_eq_true]
  refine ⟨margin_hollow _, ?_, ?_⟩
  · intro line hline hsolid
    exact (margin_begins (hkept.mpr ⟨hline, hsolid⟩)).trans (indentOf_begins line)
  · intro p hp ⟨line, hline, hsolid⟩ hall
    apply prefix_margin (List.ne_nil_of_mem (hkept.mpr ⟨hline, hsolid⟩))
    intro line hline
    exact prefix_indentOf hp (hall line (hkept.mp hline).1 (hkept.mp hline).2)

/-- A line without the margin; nothing is left of a hollow one. -/
def withoutMargin (m line : List Char) : List Char := if Hollow line then [] else line.drop m.length

theorem withoutMargin_hollow (h : Hollow line) : withoutMargin m line = [] := if_pos h

/-- A line is the margin and what is left of it. -/
theorem IsMargin.split (h : IsMargin lines m) (hline : line ∈ lines) (hsolid : ¬ Hollow line) :
    line = m ++ withoutMargin m line := by
  obtain ⟨rest, rfl⟩ := h.common line hline hsolid
  rw [withoutMargin, if_neg hsolid, List.drop_left]

theorem IsMargin.solid (h : IsMargin lines m) (hline : line ∈ lines) (hsolid : ¬ Hollow line) :
    ¬ Hollow (withoutMargin m line) := by
  intro hrest
  apply hsolid
  rw [h.split hline hsolid]
  exact List.forall_mem_append.mpr ⟨h.hollow, hrest⟩

/-- What is left of lines without their margin has no margin. -/
theorem IsMargin.removed (h : IsMargin lines m) : IsMargin (lines.map (withoutMargin m)) [] := by
  have hleft {line : List Char} (hline : line ∈ lines) :
      ¬ Hollow (withoutMargin m line) ↔ ¬ Hollow line := by
    refine ⟨?_, h.solid hline⟩
    intro hrest hhollow
    rw [withoutMargin_hollow hhollow] at hrest
    exact hrest (by simp [Hollow])
  refine ⟨by simp [Hollow], fun _ _ _ => List.nil_prefix, ?_⟩
  rintro p hp ⟨_, hmem, hsolid⟩ hall
  obtain ⟨line, hline, rfl⟩ := List.mem_map.mp hmem
  -- the margin with anything more behind it would be a longer one
  have hlonger : m ++ p <+: m := by
    refine h.longest _ (List.forall_mem_append.mpr ⟨h.hollow, hp⟩)
      ⟨line, hline, (hleft hline).mp hsolid⟩ ?_
    intro line hline hsolid
    rw [h.split hline hsolid, List.prefix_append_right_inj]
    exact hall _ (List.mem_map_of_mem hline) ((hleft hline).mpr hsolid)
  have hlength := hlonger.length_le
  rw [List.length_append] at hlength
  obtain rfl : p = [] := List.length_eq_zero_iff.mp (by omega)
  exact List.nil_prefix

theorem clearBlank_eq (line : List Char) : clearBlank line = if Hollow line then [] else line := by
  simp only [clearBlank, hollow_iff]

theorem clearBlank_drop (m line : List Char) :
    (clearBlank line).drop m.length = withoutMargin m line := by
  rw [clearBlank_eq, withoutMargin]
  split
  · exact List.drop_nil
  · rfl

/-- Clearing the hollow lines and passing over the empty ones leaves the lines that are not hollow. -/
theorem filter_clearBlank (lines : List (List Char)) :
    (lines.map clearBlank).filter (!·.isEmpty) = lines.filter fun line => !line.all isSpaceOrTab := by
  induction lines with
  | nil => rfl
  | cons line lines ih =>
    rw [List.map_cons, List.filter_cons, List.filter_cons, ih, clearBlank]
    cases h : line.all isSpaceOrTab with
    | true => rfl
    | false =>
      have hne : line ≠ [] := by
        rintro rfl
        cases h
      simp [hne]

theorem splitOnChar_ne_nil (sep : Char) (cs : List Char) : splitOnChar sep cs ≠ [] := by
  rw [splitOnChar_eq_splitOn]
  exact List.splitOn_ne_nil sep cs

/-- Pieces without the separator, joined by it, are split apart again. -/
theorem splitOnChar_intercalate {sep : Char} (hne : lines ≠ []) (h : ∀ line ∈ lines, sep ∉ line) :
    splitOnChar sep ([sep].intercalate lines) = lines := by
  rw [splitOnChar_eq_splitOn, List.splitOn_intercalate _ h hne]

/-- The lines of a text brought to the left are those of the text without their margin. -/
theorem dedent_lines (text : List Char) : ∃ m, IsMargin (splitOnChar '\n' text) m ∧
    splitOnChar '\n' (dedent text) = (splitOnChar '\n' text).map (withoutMargin m) := by
  refine ⟨_, isMargin_margin _, ?_⟩
  have hdedent : dedent text = ['\n'].intercalate ((splitOnChar '\n' text).map (withoutMargin
      (margin ((splitOnChar '\n' text).filter fun line => !line.all isSpaceOrTab)))) := by
    rw [dedent, filter_clearBlank, List.map_map]
    simp only [Function.comp_def, clearBlank_drop]
  rw [hdedent, splitOnChar_intercalate (by simp [splitOnChar_ne_nil])]
  intro line hline
  obtain ⟨whole, hwhole, rfl⟩ := List.mem_map.mp hline
  have hflat := not_mem_splitOnChar '\n' text whole hwhole
  rw [withoutMargin]
  split
  · exact List.not_mem_nil
  · exact fun hmem => hflat (List.mem_of_mem_drop hmem)

end Callees.Text

import Callees.Proofs.Blocks

namespace Callees.Block

variable {text : List Char} {offset : Int} {s e : Nat}

/-- Where a block opens, the forward scan from behind the brace decides which one closes it. -/
theorem isBlock_iff_stop? :
    IsBlock text s e ↔ text[s]? = some '{' ∧ stop? text (s + 1 : Nat) = some e := by
  rw [stop?_eq_some, isBlock_iff_fallsAt]

/-- Where a block closes, the backward scan from the brace decides which one opens it. -/
theorem isBlock_iff_start? :
    IsBlock text s e ↔ text[e]? = some '}' ∧ start? text e = some s := by
  rw [start?_eq_some, isBlock_iff_risesAt]

/-- A block that opens before an offset and does not close before it. -/
structure Encloses (text : List Char) (offset : Int) (s e : Nat) : Prop where
  block : IsBlock text s e
  opened : s < offset
  closing : offset ≤ e

/-- An offset before the text counts as its start, and nothing opens before that. -/
theorem encloses_iff_around :
    Encloses text offset s e ↔ Around text offset.toNat offset.toNat s e := by
  constructor
  · rintro ⟨hblock, hopened, hclosing⟩
    exact ⟨hblock, by omega, by omega⟩
  · rintro ⟨hblock, hopened, hclosing⟩
    exact ⟨hblock, by omega, by omega⟩

theorem start?_toNat (text : List Char) (offset : Int) :
    start? text offset.toNat = start? text offset := by
  rw [start?, start?, Int.toNat_natCast]

theorem stop?_toNat (text : List Char) (offset : Int) :
    stop? text offset.toNat = stop? text offset := by
  rw [stop?, stop?, Int.toNat_natCast]

theorem encloses_of_scans (hs : start? text offset = some s) (he : stop? text offset = some e) :
    Encloses text offset s e := by
  rw [← start?_toNat] at hs
  rw [← stop?_toNat] at he
  exact encloses_iff_around.mpr (around_of_scans (Nat.le_refl _) (balanced_empty ..) hs he)

/-- No block around the offset lies further in than the braces that the scans find. -/
theorem Encloses.outside {s' e' : Nat} (h : Encloses text offset s' e')
    (hs : start? text offset = some s) (he : stop? text offset = some e) : s' ≤ s ∧ e ≤ e' := by
  rw [← start?_toNat] at hs
  rw [← stop?_toNat] at he
  rcases (encloses_iff_around.mp h).outside (Nat.le_refl _) (balanced_empty ..) hs he with
    ⟨rfl, rfl⟩ | hout
  · exact ⟨Nat.le_refl _, Nat.le_refl _⟩
  · have hopened := hout.opened
    have hclosing := hout.closing
    omega

theorem Encloses.scans (h : Encloses text offset s e) :
    ∃ s' e', start? text offset = some s' ∧ stop? text offset = some e' := by
  rw [← start?_toNat, ← stop?_toNat]
  exact (encloses_iff_around.mp h).scans (Nat.le_refl _) (balanced_empty ..)

/-- What the two scans find from one offset is the innermost block around it. -/
theorem scans_iff_innermost : start? text offset = some s ∧ stop? text offset = some e ↔
    Encloses text offset s e ∧ ∀ s' e', Encloses text offset s' e' → s' ≤ s ∧ e ≤ e' := by
  constructor
  · rintro ⟨hs, he⟩
    exact ⟨encloses_of_scans hs he, fun s' e' h => h.outside hs he⟩
  · rintro ⟨h, hinner⟩
    obtain ⟨s', e', hs, he⟩ := h.scans
    have hin := hinner s' e' (encloses_of_scans hs he)
    have hout := h.outside hs he
    obtain rfl : s' = s := by omega
    obtain rfl : e' = e := by omega
    exact ⟨hs, he⟩

theorem scans_none_iff : start? text offset = none ∨ stop? text offset = none ↔
    ∀ s e, ¬ Encloses text offset s e := by
  constructor
  · intro hnone s e h
    obtain ⟨s', e', hs, he⟩ := h.scans
    rcases hnone with hnone | hnone
    · cases hnone.symm.trans hs
    · cases hnone.symm.trans he
  · intro h
    cases hs : start? text offset with
    | none => exact .inl rfl
    | some s =>
      cases he : stop? text offset with
      | none => exact .inr rfl
      | some e => exact absurd (encloses_of_scans hs he) (h s e)

/-- The forward scan leads from a `{` to a `}` exactly where the backward scan leads from that `}` to that `{`.
Whatever the braces elsewhere, the scans from an offset end at the two braces of one block, and every block
around the offset lies around it. One of them finds nothing exactly where no block is around the offset. -/
theorem scans_inverse (text : List Char) (offset : Int) :
    (∀ s e, text[s]? = some '{' ∧ stop? text (s + 1 : Nat) = some e ↔
      text[e]? = some '}' ∧ start? text e = some s) ∧
    (∀ s e, start? text offset = some s → stop? text offset = some e →
      Encloses text offset s e ∧ Balanced (Document.slice text (s + 1) e) ∧
      stop? text (s + 1 : Nat) = some e ∧ start? text e = some s ∧
      ∀ s' e', Encloses text offset s' e' → s' ≤ s ∧ e ≤ e') ∧
    (start? text offset = none ∨ stop? text offset = none ↔
      ∀ s' e', ¬ Encloses text offset s' e') := by
  refine ⟨fun s e => ?_, fun s e hs he => ?_, scans_none_iff⟩
  · rw [← isBlock_iff_stop?, isBlock_iff_start?]
  · obtain ⟨h, hinner⟩ := scans_iff_innermost.mp ⟨hs, he⟩
    have hstop := (isBlock_iff_stop?.mp h.block).2
    have hstart := (isBlock_iff_start?.mp h.block).2
    exact ⟨h, h.block.inside, hstop, hstart, hinner⟩

/-- A `}` and a `{` that nothing matches, and between them a block with two others in it. -/
def stray : List Char := "\x7d \x7b a \x7b b \x7d c \x7b\x7d d \x7d \x7b".toList

theorem scans_inverse_stray :
    (start? stray 12 = some 2 ∧ stop? stray 12 = some 19 ∧
      Encloses stray 12 2 19 ∧ Balanced (Document.slice stray (2 + 1) 19) ∧
      stop? stray (2 + 1 : Nat) = some 19 ∧ start? stray (19 : Nat) = some 2 ∧
      ∀ s' e', Encloses stray 12 s' e' → s' ≤ 2 ∧ 19 ≤ e') ∧
    start? stray 22 = some 21 ∧ stop? stray 22 = none ∧ ∀ s' e', ¬ Encloses stray 22 s' e' := by
  have hs : start? stray 12 = some 2 := by decide +kernel
  have he : stop? stray 12 = some 19 := by decide +kernel
  have hend : stop? stray 22 = none := by decide +kernel
  exact ⟨⟨hs, he, (scans_inverse stray 12).2.1 2 19 hs he⟩, by decide +kernel, hend,
    (scans_inverse stray 22).2.2.mp (.inr hend)⟩

end Callees.Block

import Callees.Proofs.BodyExtent
import Callees.Proofs.DefinitionExtent

namespace Callees.Text

/-- A line has only characters of the text. -/
theorem Layout.chars_subset {o : Nat} {cs : List Char} {ls : List Line} (h : Layout o cs ls) :
    ∀ l ∈ ls, l.chars ⊆ cs := by
  induction h with
  | last flat =>
    intro l hl
    rw [List.mem_singleton.mp hl]
    exact List.Subset.refl _
  | @broken o w gap rest ls flat ends more ih =>
    intro l hl
    rcases List.mem_cons.mp hl with rfl | hl
    · exact List.subset_append_left ..
    · intro c hc
      exact List.mem_append_right _ (List.mem_append_right _ (ih l hl hc))

end Callees.Text

namespace Callees.Block

open Text Document

variable {d : Document} {n : Nat} {l : Line}

/-- The lines from one of the document's to that of an offset. -/
def bodyTo (d : Document) (n k : Nat) : Body :=
  ⟨(d.lineTexts.drop n).take ((d.positionAt k).line + 1 - n), (d.positionAt k).line⟩

theorem body?_opens {a : Nat} (hl : d.lines[n]? = some l) (h : OpensFirst d.chars l.start a) :
    body? d.lineTexts n = (stop? d.chars (a + 1 : Nat)).map (bodyTo d n) := by
  cases hk : stop? d.chars (a + 1 : Nat) with
  | none =>
    refine body?_of_unclosed hl h fun f hf => ?_
    cases hk.symm.trans (stop?_eq_some.mpr hf)
  | some k =>
    obtain ⟨body, hb, hlines, hend⟩ := body?_of_falls hl h (stop?_eq_some.mp hk)
    rw [hb, Option.map_some, bodyTo, ← hend, ← hlines]

/-- A block needs a brace. -/
theorem body?_plain (hl : d.lines[n]? = some l) (h : ∀ i, l.start ≤ i → d.chars[i]? ≠ some '}') :
    body? d.lineTexts n = none := by
  have hlay := (lines_layout d.chars).drop (i := n) rfl hl
  rw [body?_none]
  rintro ⟨inner, rest, hsplit, -⟩
  have hclose : '}' ∈ (d.lineTexts.drop n).flatten := by simp [hsplit]
  obtain ⟨w, hw, hmem⟩ := List.mem_flatten.mp hclose
  rw [lineTexts, ← List.map_drop] at hw
  obtain ⟨m, hm, rfl⟩ := List.mem_map.mp hw
  obtain ⟨j, hj⟩ := List.mem_iff_getElem?.mp (hlay.chars_subset m hm hmem)
  rw [List.getElem?_drop] at hj
  exact h _ (Nat.le_add_right ..) hj

/-- From a line on whose first brace opens a block, a body is collected exactly if the scan from behind that
brace finds where the block closes, and then up to the line of the brace that it finds. Where no brace follows,
none is collected. -/
theorem body?_scanned (d : Document) (n : Nat) (l : Line) (hl : d.lines[n]? = some l) :
    (∀ a, OpensFirst d.chars l.start a →
      (body? d.lineTexts n = none ↔ stop? d.chars (a + 1 : Nat) = none) ∧
      ∀ k, stop? d.chars (a + 1 : Nat) = some k → ∃ body, body? d.lineTexts n = some body ∧
        body.endLine = (d.positionAt k).line ∧
        body.content = String.ofList
          (List.intercalate ['\n'] ((d.lineTexts.drop n).take (body.endLine + 1 - n)))) ∧
    ((∀ i, l.start ≤ i → d.chars[i]? ≠ some '{' ∧ d.chars[i]? ≠ some '}') →
      body? d.lineTexts n = none) := by
  refine ⟨fun a ha => ⟨?_, fun k hk => ⟨bodyTo d n k, ?_, rfl, rfl⟩⟩, fun hplain => ?_⟩
  · rw [body?_opens hl ha, Option.map_eq_none_iff]
  · rw [body?_opens hl ha, hk]
    rfl
  · exact body?_plain hl fun i hi => (hplain i hi).2

/-- Three kinds of line breaks, a block inside the block, and a `}` that nothing opens. -/
def ragged : Document := ⟨"file:///w/a.js", "\x7d\r\nf(a)\r\x7b g(\x7b\x7d)\n\r\n\x7d x \x7b", none, 0⟩

theorem body?_scanned_ragged : ragged.lines[1]? = some ⟨3, "f(a)".toList⟩ ∧
    OpensFirst ragged.chars 3 8 ∧ stop? ragged.chars (8 + 1 : Nat) = some 18 ∧
    ∃ body, body? ragged.lineTexts 1 = some body ∧ body.endLine = (ragged.positionAt (18 : Nat)).line ∧
      body.content = String.ofList
        (List.intercalate ['\n'] ((ragged.lineTexts.drop 1).take (body.endLine + 1 - 1))) := by
  have hl : ragged.lines[1]? = some ⟨3, "f(a)".toList⟩ := by decide +kernel
  have hopens : OpensFirst ragged.chars 3 8 := by
    refine ⟨by decide, by decide +kernel, fun i hi hi' => ?_⟩
    have hplain : ∀ i < 8, 3 ≤ i → ragged.chars[i]? ≠ some '{' ∧ ragged.chars[i]? ≠ some '}' := by
      decide +kernel
    exact hplain i hi' hi
  have hstop : stop? ragged.chars (8 + 1 : Nat) = some 18 := by decide +kernel
  exact ⟨hl, hopens, hstop, ((body?_scanned ragged 1 _ hl).1 8 hopens).2 18 hstop⟩

end Callees.Block

import Callees.Proofs.Margins
import Callees.Proofs.WrittenLines
import Callees.Report.Render

namespace Callees

namespace Text

/-- What ends a shown line, and what may follow it. A `\r\n` is never two ends. -/
inductive Ending : List Char → List Char → Prop
  | both (rest : List Char) : Ending ['\r', '\n'] rest
  | single {c : Char} {rest : List Char} (hc : endsLine c = true)
      (h : c = '\r' → rest.head? ≠ some '\n') : Ending [c] rest

/-- The lines of a text as they are shown. What stands behind the last end is a line only if there is
something. -/
inductive Shown : List Char → List (List Char) → Prop
  | nothing : Shown [] []
  | last {w : List Char} (flat : ∀ c ∈ w, endsLine c = false) (hne : w ≠ []) : Shown w [w]
  | ended {w gap rest : List Char} {ls : List (List Char)} (flat : ∀ c ∈ w, endsLine c = false)
      (ends : Ending gap rest) (more : Shown rest ls) : Shown (w ++ (gap ++ rest)) (w :: ls)

variable {c : Char} {cs w : List Char} {ls : List (List Char)}

theorem Shown.flat (h : Shown cs ls) : ∀ w ∈ ls, ∀ c ∈ w, endsLine c = false := by
  induction h with
  | nothing => simp
  | last flat => simpa using flat
  | ended flat ends more ih => exact List.forall_mem_cons.mpr ⟨flat, ih⟩

theorem Shown.eq_nil (h : Shown cs []) : cs = [] := by
  cases h
  rfl

theorem Shown.cons (h : Shown cs (w :: ls)) (hc : endsLine c = false) :
    Shown (c :: cs) ((c :: w) :: ls) := by
  cases h with
  | last flat => exact .last (List.forall_mem_cons.mpr ⟨hc, flat⟩) (List.cons_ne_nil c _)
  | ended flat ends more => exact .ended (List.forall_mem_cons.mpr ⟨hc, flat⟩) ends more

theorem shownLines_shown (cs : List Char) : Shown cs (shownLines cs) := by
  fun_induction shownLines cs with
  | case1 => exact .nothing
  | case2 cs ih => exact .ended (w := []) (by simp) (.both cs) ih
  | case3 c cs hpair hc ih =>
    refine .ended (w := []) (by simp) (.single hc ?_) ih
    intro hcr hfeed
    obtain ⟨cs, rfl⟩ := List.head?_eq_some_iff.mp hfeed
    exact hpair cs hcr rfl
  | case4 c cs hpair hc w ls hls ih =>
    rw [hls] at ih
    exact ih.cons (Bool.eq_false_iff.mpr hc)
  | case5 c cs hpair hc hls ih =>
    rw [hls] at ih
    rw [ih.eq_nil]
    exact .last (by simpa using hc) (List.cons_ne_nil c _)

theorem not_feed_of_flat (h : ∀ c ∈ w, endsLine c = false) : '\n' ∉ w := by
  intro hmem
  cases h '\n' hmem

end Text

namespace Render

open Text

/-- The last line of what was cut off tells the number of lines left out, as one line or as several. -/
theorem elision_eq (hidden : Nat) : elision hidden =
    ("// ... (" ++ toString hidden ++ if hidden = 1 then " more line)" else " more lines)").toList := by
  rw [elision]
  split <;> simp

theorem elision_flat (hidden : Nat) : '\n' ∉ elision hidden := by
  have hnumber : '\n' ∉ Nat.toDigits 10 hidden := by
    have hflat := Json.int_flat hidden
    rwa [JsonReader.toString_int, if_pos (Int.natCast_nonneg hidden), Int.toNat_natCast] at hflat
  rw [elision_eq, String.toList_append, String.toList_append]
  split <;> simp [hnumber]

variable {text : List Char} {n : Int}

theorem content_whole (h : ((shownLines (dedent text)).length : Int) ≤ n) :
    content text n = ['\n'].intercalate (shownLines (dedent text)) := by
  rw [content]
  exact if_pos (.inr h)

theorem content_cut (hn : 1 ≤ n) (h : n < (shownLines (dedent text)).length) :
    content text n = ['\n'].intercalate ((shownLines (dedent text)).take n.toNat ++
      [elision ((shownLines (dedent text)).length - n.toNat)]) := by
  rw [content]
  exact if_neg (by omega)

/-- What is shown of a text. Its lines are brought to the left: the hollow ones are emptied, and from all
others goes the longest run of spaces and tabs that they have in common, so that every line keeps what
its indent has more than that, and no margin is left. If what this gives has as many lines as are allowed
or fewer, these are shown; else as many as are allowed, and one line more that tells how many were left
out. -/
theorem content_shown (text : List Char) (n : Int) (hn : 1 ≤ n) :
    (∃ m, IsMargin (splitOnChar '\n' text) m ∧
      splitOnChar '\n' (dedent text) = (splitOnChar '\n' text).map (withoutMargin m) ∧
      (∀ line ∈ splitOnChar '\n' text, ¬ Hollow line →
        line = m ++ withoutMargin m line ∧ indentOf line = m ++ indentOf (withoutMargin m line)) ∧
      IsMargin (splitOnChar '\n' (dedent text)) []) ∧
    ∃ lines, lines = shownLines (dedent text) ∧ Shown (dedent text) lines ∧
      (lines.length ≤ n → content text n = ['\n'].intercalate lines) ∧
      (n < lines.length → ∃ hidden, hidden + n.toNat = lines.length ∧
        content text n = ['\n'].intercalate (lines.take n.toNat ++
          [("// ... (" ++ toString hidden ++
            if hidden = 1 then " more line)" else " more lines)").toList]) ∧
        (splitOnChar '\n' (content text n)).length = n + 1) := by
  obtain ⟨m, hm, hlines⟩ := dedent_lines text
  refine ⟨⟨m, hm, hlines, ?_, ?_⟩, _, rfl, shownLines_shown _, content_whole, ?_⟩
  · intro line hline hsolid
    have hsplit := hm.split hline hsolid
    refine ⟨hsplit, ?_⟩
    rw [← indentOf_append hm.hollow, ← hsplit]
  · rw [hlines]
    exact hm.removed
  · intro hlt
    have hcut := content_cut hn hlt
    refine ⟨(shownLines (dedent text)).length - n.toNat, by omega, ?_, ?_⟩
    · rw [hcut, elision_eq]
    · rw [hcut, splitOnChar_intercalate (by simp)]
      · simp only [List.length_append, List.length_take, List.length_singleton]
        omega
      · intro line hline
        rcases List.mem_append.mp hline with hline | hline
        · exact not_feed_of_flat ((shownLines_shown _).flat line (List.mem_of_mem_take hline))
        · rw [List.mem_singleton.mp hline]
          exact elision_flat _

/-- A margin of a tab and a space, a hollow line, and ends of lines of two more kinds. -/
def mixedText : List Char := "\t a\r\n\t\n\t  b\x0bc\n".toList

theorem content_shown_mixed : (1 : Int) ≤ 3 ∧
    shownLines (dedent mixedText) = [['a'], [], [' ', 'b'], ['c']] ∧
    content mixedText 3 = "a\n\n b\n// ... (1 more line)".toList ∧
    (splitOnChar '\n' (content mixedText 3)).length = (3 : Int) + 1 := by
  have hlines : shownLines (dedent mixedText) = [['a'], [], [' ', 'b'], ['c']] := by decide +kernel
  obtain ⟨-, lines, rfl, -, -, hcut⟩ := content_shown mixedText 3 (by decide)
  obtain ⟨hidden, hcount, htext, hlength⟩ := hcut (by rw [hlines]; decide)
  rw [hlines] at hcount htext
  obtain rfl : hidden = 1 := by simpa using hcount
  exact ⟨by decide, hlines, htext.trans (by decide +kernel), hlength⟩

end Render

end Callees

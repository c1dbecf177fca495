import Mathlib.Data.List.Forall2
import Mathlib.Data.List.TakeWhile
import Callees.Proofs.CallUnderCursor

namespace Callees

open Text

namespace Text

variable {text : List Char} {o a b : Nat}

/-- The first offset from `o` on at which no blank stands. -/
def pastBlanks (text : List Char) (o : Nat) : Nat := o + ((text.drop o).takeWhile isBlank).length

theorem pastBlanks_of_drop {gap rest : List Char} (hgap : ∀ c ∈ gap, isBlank c = true)
    (hdrop : text.drop o = gap ++ '(' :: rest) : pastBlanks text o = o + gap.length := by
  rw [pastBlanks, hdrop, List.takeWhile_append_of_pos hgap, List.takeWhile_cons_of_neg (by decide),
    List.append_nil]

theorem paren_past_blanks : text[pastBlanks text o]? = some '(' ↔
    ∃ gap rest, (∀ c ∈ gap, isBlank c = true) ∧ text.drop o = gap ++ '(' :: rest := by
  constructor
  · intro h
    obtain ⟨gap, rest, hgap, hrest⟩ : ∃ gap rest, (text.drop o).takeWhile isBlank = gap ∧
        (text.drop o).dropWhile isBlank = rest := ⟨_, _, rfl, rfl⟩
    have hdrop : text.drop o = gap ++ rest := by rw [← hgap, ← hrest, List.takeWhile_append_dropWhile]
    rw [pastBlanks, hgap, ← List.getElem?_drop, hdrop, List.getElem?_append_right (Nat.le_refl _),
      Nat.sub_self] at h
    cases rest with
    | nil => cases h
    | cons c rest =>
      cases h
      exact ⟨gap, rest, fun c hc => List.mem_takeWhile_imp (hgap ▸ hc), hdrop⟩
  · rintro ⟨gap, rest, hgap, hdrop⟩
    rw [pastBlanks_of_drop hgap hdrop, ← List.getElem?_drop, hdrop,
      List.getElem?_append_right (Nat.le_refl _), Nat.sub_self]
    rfl

/-- A word that is called. -/
structure CalledWord (text : List Char) (a b : Nat) : Prop where
  word : IsWord text a b
  start : text[a]?.any Char.isDigit = false
  paren : text[pastBlanks text b]? = some '('

theorem CalledWord.isCall (h : CalledWord text a b) : IsCall text a (Document.slice text a b) := by
  refine h.word.isCall (paren_past_blanks.mp h.paren) ?_
  have hlt := h.word.lt
  rw [Document.slice, List.head?_drop, List.getElem?_take, if_pos hlt]
  exact h.start

end Text

theorem IsCall.calledWord {text name : List Char} {a : Nat} (h : IsCall text a name) :
    CalledWord text a (a + name.length) where
  word := h.isWord
  start := by
    have hne := isIdentifier_ne_nil h.identifier
    have hdigit := h.identifier
    rw [isIdentifier_eq hne (isIdentifier_all h.identifier), Bool.not_eq_true', List.head?_eq_getElem?]
      at hdigit
    have hpos := List.length_pos_iff.mpr hne
    have hfirst := h.getElem? (List.getElem?_eq_getElem hpos)
    rw [Nat.add_zero, ← List.getElem?_eq_getElem hpos] at hfirst
    rw [hfirst, hdigit]
  paren := by
    obtain ⟨gap, rest, hgap, hdrop⟩ := h.follows
    refine paren_past_blanks.mpr ⟨gap, rest, hgap, ?_⟩
    rw [← List.drop_drop, hdrop, List.drop_left]

namespace CallSite

open Pattern

variable {text : List Char} {a b : Nat}

/-- The spans of the names that a scan of a text finds. -/
def spans (text : List Char) : List (Nat × Nat) := (shape.occurrences text).filterMap Match.name

theorem mem_spans : (a, b) ∈ spans text ↔ CalledWord text a b := by
  rw [spans, List.mem_filterMap]
  constructor
  · rintro ⟨m, hm, hname⟩
    obtain ⟨name, hcall, hfound⟩ := isCall_of_mem hm
    cases hfound.symm.trans hname
    exact hcall.calledWord
  · intro h
    obtain ⟨m, hm, -, hname⟩ := mem_of_isCall h.isCall
    rw [slice_length h.word.stop_le_length, Nat.add_sub_cancel' (Nat.le_of_lt h.word.lt)] at hname
    exact ⟨m, hm, hname⟩

/-- Each name ends before the next one starts. -/
theorem spans_apart (text : List Char) : (spans text).Pairwise fun s s' => s.2 < s'.1 := by
  rw [spans, List.pairwise_filterMap]
  refine (occurrences_apart shape text).imp_of_mem ?_
  rintro m m' hm hm' ⟨hlt, -⟩ s hs s' hs'
  obtain ⟨name, hcall, hname⟩ := isCall_of_mem hm
  obtain ⟨name', hcall', hname'⟩ := isCall_of_mem hm'
  cases hname.symm.trans hs
  cases hname'.symm.trans hs'
  rcases hcall.isWord.next hcall'.isWord (Nat.le_of_lt hlt) with ⟨heq, -⟩ | hnext
  · exact absurd heq (Nat.ne_of_gt hlt)
  · exact hnext

/-- A call site that reports the word from `a` to `b`. -/
structure Reports (d : Document) (a b : Nat) (c : CallSite) : Prop where
  name : c.name = String.ofList (Document.slice d.chars a b)
  start : c.range.start = d.positionAt a
  stop : c.range.stop = d.positionAt b
  line : c.line = c.range.start.line
  character : c.character = c.range.start.character

variable {d : Document}

/-- The call site for the span of a name. -/
def site (d : Document) (s : Nat × Nat) : CallSite := at_ d s.1 (Document.slice d.chars s.1 s.2)

theorem site_reports (h : CalledWord d.chars a b) : Reports d a b (site d (a, b)) := by
  have hlt := h.word.lt
  have hcall : IsCall (d.charsIn d.whole) a (Document.slice d.chars a b) := by
    rw [d.charsIn_whole]
    exact h.isCall
  have hstands := Stands.of_call hcall
  rw [d.offsetAt_whole, Nat.zero_add] at hstands
  obtain ⟨hline, hcharacter⟩ := hstands.placed
  refine ⟨rfl, rfl, ?_, hline, hcharacter⟩
  rw [site, hstands.stop, d.offsetAt_whole, at_, String.toList_ofList,
    slice_length h.word.stop_le_length, Nat.zero_add, Nat.add_sub_cancel' (Nat.le_of_lt hlt)]

/-- What is skipped is left out of the scan, and nothing else. -/
theorem inDocument_spans (d : Document) (skipped : List String) : inDocument d none skipped =
    ((spans d.chars).map (site d)).filter fun c => !skipped.contains c.name := by
  rw [List.filter_map, ← List.filterMap_eq_map, List.filterMap_filter, spans, List.filterMap_filterMap]
  refine List.filterMap_congr fun m _ => ?_
  cases m.name with
  | none => rfl
  | some s =>
    obtain ⟨a, b⟩ := s
    simp only [Option.bind_some, Nat.zero_add, Function.comp_apply, site, at_, Bool.not_eq_true',
      ← Bool.not_eq_true, ite_not]

/-- A scan of a whole document reports the called words of its text, and each of them once; with names to
leave out, it reports those of them that have none of these names. -/
theorem inDocument_called (d : Document) : ∃ words : List (Nat × Nat),
    words.Pairwise (fun w w' => w.2 < w'.1) ∧
    (∀ a b, (a, b) ∈ words ↔ CalledWord d.chars a b) ∧
    List.Forall₂ (fun w c => Reports d w.1 w.2 c) words (inDocument d none []) ∧
    ∀ exclude ignored, inDocument d none (exclude ++ ignored) =
      (inDocument d none []).filter fun c => c.name ∉ exclude ∧ c.name ∉ ignored := by
  have hall : inDocument d none [] = (spans d.chars).map (site d) := by
    rw [inDocument_spans]
    exact List.filter_eq_self.mpr fun _ _ => rfl
  refine ⟨spans d.chars, spans_apart d.chars, fun a b => mem_spans, ?_, fun exclude ignored => ?_⟩
  · rw [hall, List.forall₂_map_right_iff, List.forall₂_same]
    exact fun w hw => site_reports (mem_spans.mp hw)
  · rw [hall, inDocument_spans]
    refine List.filter_congr fun c _ => ?_
    simp

end CallSite

end Callees

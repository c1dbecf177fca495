import Mathlib.Data.List.Sort
import Callees.Proofs.CalledWords

namespace Callees

open Text

variable {d : Document} {r : Range} {a : Nat} {name : List Char}

namespace IsCall

theorem pastBlanks_eq {text gap rest : List Char} (hgap : ∀ c ∈ gap, isBlank c = true)
    (hdrop : text.drop a = name ++ (gap ++ '(' :: rest)) :
    pastBlanks text (a + name.length) = a + name.length + gap.length := by
  have hafter : text.drop (a + name.length) = gap ++ '(' :: rest := by
    rw [← List.drop_drop, hdrop, List.drop_left]
  exact pastBlanks_of_drop hgap hafter

/-- The parenthesis of a call in the text of a span comes before the end of the span. -/
theorem paren_lt (h : IsCall (d.charsIn r) a name) :
    pastBlanks d.chars (d.offsetAt r.start + a + name.length) < d.offsetAt r.stop := by
  obtain ⟨gap, rest, hgap, hdrop⟩ := h.follows
  have hin : (d.charsIn r)[a + name.length + gap.length]? = some '(' := by
    rw [Nat.add_assoc, ← List.getElem?_drop, hdrop, List.getElem?_append_right (Nat.le_add_right ..),
      Nat.add_sub_cancel_left, List.getElem?_append_right (Nat.le_refl _), Nat.sub_self]
    rfl
  have hdocument := Document.drop_span (Nat.lt_of_le_of_lt (Nat.le_add_right a name.length) h.lt)
  rw [hdrop, List.append_assoc, List.append_assoc, List.cons_append] at hdocument
  rw [pastBlanks_eq hgap hdocument]
  have := (Document.charsIn_getElem? hin).2
  omega

/-- A call of the document is one in the text of a span that holds its name and its parenthesis. -/
theorem in_span (h : IsCall d.chars (d.offsetAt r.start + a) name)
    (hstop : pastBlanks d.chars (d.offsetAt r.start + a + name.length) < d.offsetAt r.stop) :
    IsCall (d.charsIn r) a name := by
  obtain ⟨gap, rest, hgap, hdrop⟩ := h.follows
  rw [pastBlanks_eq hgap hdrop] at hstop
  -- the call with its parenthesis fits into the span
  have hfits : a + (name ++ (gap ++ ['('])).length ≤ (d.charsIn r).length := by
    have hlength := congrArg List.length hdrop
    simp only [List.length_drop, List.length_append, List.length_cons, List.length_nil,
      Document.charsIn, Document.slice, List.length_take] at hlength ⊢
    omega
  have hlt : a < (d.charsIn r).length := by
    have := List.length_pos_iff.mpr (isIdentifier_ne_nil h.identifier)
    simp only [List.length_append] at hfits
    omega
  refine ⟨h.identifier, fun c hc => ?_, ?_⟩
  · cases a with
    | zero => simp at hc
    | succ k =>
      have hk : k < (d.charsIn r).length := by omega
      have hin := (Document.charsIn_getElem? (List.getElem?_eq_getElem hk)).1
      rw [getLast?_take_succ hk, List.getElem?_eq_getElem hk] at hc
      refine h.edge c ?_
      rw [← Nat.add_assoc, getLast?_take_succ (List.getElem?_eq_some_iff.mp hin).1, hin, hc]
  · have hcall : name ++ (gap ++ ['(']) <+: d.chars.drop (d.offsetAt r.start + a) :=
      ⟨rest, by rw [hdrop, List.append_assoc, List.append_assoc, List.singleton_append]⟩
    have hspan : (d.charsIn r).drop a <+: d.chars.drop (d.offsetAt r.start + a) :=
      ⟨_, (Document.drop_span hlt).symm⟩
    obtain ⟨rest', heq⟩ := List.prefix_of_prefix_length_le hcall hspan (by
      rw [List.length_drop]
      omega)
    refine ⟨gap, rest', hgap, ?_⟩
    rw [← heq, List.append_assoc, List.append_assoc, List.singleton_append]

end IsCall

namespace CallSite

/-- Where the parenthesis of a call site stands. -/
def parenAfter (d : Document) (c : CallSite) : Nat := pastBlanks d.chars (d.offsetAt c.range.stop)

namespace Stands

variable {c : CallSite}

theorem whole_iff : Stands d d.whole a c ↔
    IsCall d.chars a c.name.toList ∧ c = at_ d a c.name.toList := by
  constructor
  · intro h
    obtain ⟨hcall, hsite⟩ := h
    rw [d.charsIn_whole] at hcall
    rw [d.offsetAt_whole, Nat.zero_add] at hsite
    exact ⟨hcall, hsite⟩
  · rintro ⟨hcall, hsite⟩
    refine ⟨?_, ?_⟩
    · rw [d.charsIn_whole]
      exact hcall
    · rw [d.offsetAt_whole, Nat.zero_add]
      exact hsite

theorem start_offset (h : Stands d d.whole a c) : d.offsetAt c.range.start = a := by
  rw [h.start, d.offsetAt_whole, Nat.zero_add]
  exact (whole_iff.mp h).1.isWord.offsets.1

theorem parenAfter_eq (h : Stands d d.whole a c) :
    parenAfter d c = pastBlanks d.chars (a + c.name.toList.length) := by
  rw [parenAfter, h.stop_offset, d.offsetAt_whole, Nat.zero_add]

theorem paren (h : Stands d d.whole a c) : d.chars[parenAfter d c]? = some '(' := by
  rw [h.parenAfter_eq]
  exact (whole_iff.mp h).1.calledWord.paren

theorem span_iff (hr : splitsWord d.chars (d.offsetAt r.start) = false) : Stands d r a c ↔
    Stands d d.whole (d.offsetAt r.start + a) c ∧ parenAfter d c < d.offsetAt r.stop := by
  constructor
  · intro h
    have hwhole := whole_iff.mpr ⟨h.call.in_document hr, h.site⟩
    refine ⟨hwhole, ?_⟩
    rw [hwhole.parenAfter_eq]
    exact h.call.paren_lt
  · rintro ⟨h, hstop⟩
    obtain ⟨hcall, hsite⟩ := whole_iff.mp h
    rw [h.parenAfter_eq] at hstop
    exact ⟨hcall.in_span hstop, hsite⟩

end Stands

instance : Std.Irrefl fun c c' : CallSite => c.range.start < c'.range.start where
  irrefl c h := by
    rw [Position.lt_iff] at h
    omega

instance : Std.Antisymm fun c c' : CallSite => c.range.start < c'.range.start where
  antisymm c c' h h' := by
    rw [Position.lt_iff] at h h'
    omega

/-- A scan of a span is the scan of the whole document without the calls that start before the span or have
their parenthesis behind its end. -/
theorem inDocument_span (hr : splitsWord d.chars (d.offsetAt r.start) = false)
    (exclude ignored : List String) :
    (∀ c ∈ inDocument d none (exclude ++ ignored), d.chars[parenAfter d c]? = some '(') ∧
    inDocument d (some r) (exclude ++ ignored) =
      (inDocument d none (exclude ++ ignored)).filter fun c =>
        d.offsetAt r.start ≤ d.offsetAt c.range.start ∧ parenAfter d c < d.offsetAt r.stop := by
  rw [inDocument_whole]
  constructor
  · intro c hc
    obtain ⟨-, a, h⟩ := mem_inDocument.mp hc
    exact h.paren
  · refine (inDocument_increasing d r _).eq_of_mem_iff ((inDocument_increasing d d.whole _).filter _)
      fun c => ?_
    rw [List.mem_filter, decide_eq_true_eq, mem_inDocument, mem_inDocument]
    constructor
    · rintro ⟨hskip, a, h⟩
      obtain ⟨hwhole, hstop⟩ := (Stands.span_iff hr).mp h
      refine ⟨⟨hskip, _, hwhole⟩, ?_, hstop⟩
      rw [hwhole.start_offset]
      exact Nat.le_add_right _ a
    · rintro ⟨⟨hskip, b, h⟩, hstart, hstop⟩
      rw [h.start_offset] at hstart
      obtain ⟨a, rfl⟩ := Nat.exists_eq_add_of_le hstart
      exact ⟨hskip, a, (Stands.span_iff hr).mpr ⟨h, hstop⟩⟩

def errands : Document := ⟨"file:///w/a.js", "leave();\npack\n  (bag);\ndrive(home);\n", none, 0⟩

/-- A span from behind the end of a line to before the parenthesis of the last call. -/
def journey : Range := ⟨⟨0, 40⟩, ⟨3, 5⟩, by decide⟩

theorem inDocument_span_journey :
    inDocument errands (some journey) (["unpack"] ++ ["if"]) =
      (inDocument errands none (["unpack"] ++ ["if"])).filter (fun c =>
        errands.offsetAt journey.start ≤ errands.offsetAt c.range.start ∧
          parenAfter errands c < errands.offsetAt journey.stop) ∧
    (inDocument errands (some journey) (["unpack"] ++ ["if"])).map CallSite.name = ["pack"] :=
  ⟨(inDocument_span (by decide +kernel) ["unpack"] ["if"]).2, by decide +kernel⟩

end CallSite

end Callees

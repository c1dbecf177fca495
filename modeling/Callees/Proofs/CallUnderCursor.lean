import Callees.Definition
import Callees.Proofs.CallSites
import Callees.Proofs.Words

namespace Callees

open Text

namespace Text

theorem ascii_start : ∀ n < 128, isIdentChar (Char.ofNat n) = true →
    isIdentStart (Char.ofNat n) = !(Char.ofNat n).isDigit := by
  decide

theorem isIdentStart_eq {c : Char} (h : isIdentChar c = true) : isIdentStart c = !c.isDigit := by
  have hstart := ascii_start c.toNat (isIdentChar_lt h)
  rw [Char.ofNat_toNat] at hstart
  exact hstart h

/-- Only a digit at its start keeps a word from being an identifier. -/
theorem isIdentifier_eq {name : List Char} (hne : name ≠ [])
    (h : ∀ c ∈ name, isIdentChar c = true) :
    isIdentifier name = !name.head?.any Char.isDigit := by
  cases name with
  | nil => exact absurd rfl hne
  | cons c cs =>
    obtain ⟨hc, hcs⟩ := List.forall_mem_cons.mp h
    rw [isIdentifier, isIdentStart_eq hc, List.all_eq_true.mpr hcs, Bool.and_true]
    rfl

/-- Whether identifier characters stand on both sides of an offset. -/
def splitsWord (text : List Char) : Nat → Bool
  | 0 => false
  | k + 1 => identAt text k && identAt text (k + 1)

theorem getLast?_take_succ {text : List Char} {k : Nat} (h : k < text.length) :
    (text.take (k + 1)).getLast? = text[k]? := by
  rw [List.take_add_one, List.getElem?_eq_getElem h, Option.toList_some, List.getLast?_concat]

theorem slice_append_drop {text : List Char} {a b : Nat} (hab : a ≤ b) (ha : a ≤ text.length) :
    Document.slice text a b ++ text.drop b = text.drop a := by
  rw [Document.slice, ← List.drop_append_of_le_length (by rw [List.length_take]; omega),
    List.take_append_drop]

theorem slice_length {text : List Char} {a b : Nat} (hb : b ≤ text.length) :
    (Document.slice text a b).length = b - a := by
  rw [Document.slice, List.length_drop, List.length_take, Nat.min_eq_left hb]

end Text

namespace Document

variable {d : Document}

/-- The span of everything in a document. -/
def whole (d : Document) : Range :=
  ⟨⟨0, 0⟩, ⟨d.lineCount, 0⟩, Position.le_iff.mpr (by simp only; omega)⟩

theorem offsetAt_whole (d : Document) : d.offsetAt d.whole.start = 0 := by
  obtain ⟨l, hl, hstart⟩ := d.first_line
  rw [d.offsetAt_of_line (p := d.whole.start) hl, hstart, Nat.zero_add]
  exact Nat.zero_min _

theorem charsIn_whole (d : Document) : d.charsIn d.whole = d.chars := by
  have hpast : d.lines[d.whole.stop.line]? = none := List.getElem?_eq_none (Nat.le_refl _)
  rw [charsIn, offsetAt_whole, d.offsetAt_past hpast, slice, List.take_length, List.drop_zero]

/-- After the text of a span comes what the document has behind it. -/
theorem drop_span {r : Range} {i : Nat} (hi : i < (d.charsIn r).length) :
    d.chars.drop (d.offsetAt r.start + i) =
      (d.charsIn r).drop i ++ d.chars.drop (d.offsetAt r.stop) := by
  obtain ⟨hin, hlt⟩ := charsIn_getElem? (List.getElem?_eq_getElem hi)
  have hlength := (List.getElem?_eq_some_iff.mp hin).1
  have hspan : d.charsIn r ++ d.chars.drop (d.offsetAt r.stop) = d.chars.drop (d.offsetAt r.start) :=
    slice_append_drop (by omega) (by omega)
  rw [← List.drop_drop, ← hspan, List.drop_append_of_le_length (Nat.le_of_lt hi)]

end Document

variable {d : Document} {r : Range} {a b : Nat} {name : List Char}

theorem CallSite.inDocument_whole (d : Document) (skipped : List String) :
    inDocument d none skipped = inDocument d (some d.whole) skipped := by
  have hscanned : scanned d none = scanned d (some d.whole) := by
    rw [scanned, scanned, d.offsetAt_whole, d.charsIn_whole]
  rw [inDocument, inDocument, hscanned]

namespace IsCall

/-- A call in the text of a span is one of the document, unless the span begins within its name. -/
theorem in_document (h : IsCall (d.charsIn r) a name)
    (hr : splitsWord d.chars (d.offsetAt r.start) = false) :
    IsCall d.chars (d.offsetAt r.start + a) name where
  identifier := h.identifier
  edge := by
    intro c hc
    obtain ⟨hname, hlt⟩ := h.chars
    have hstop := (List.getElem?_eq_some_iff.mp
      ((hname 0 h.length_pos).trans (List.getElem?_eq_getElem h.length_pos))).1
    cases a with
    | zero =>
      -- the span begins with the name
      cases ho : d.offsetAt r.start with
      | zero => simp [ho] at hc
      | succ k =>
        have hfirst := hname 0 h.length_pos
        rw [ho, List.getElem?_eq_getElem h.length_pos] at hfirst
        rw [ho, Nat.add_zero, getLast?_take_succ (by omega)] at hc
        rw [ho, splitsWord, identAt_of_get hc, identAt_of_get (k := k + 1) hfirst,
          isIdentifier_all h.identifier _ (List.getElem_mem _), Bool.and_true] at hr
        exact hr
    | succ a =>
      have hin := List.getElem?_eq_getElem (show a < (d.charsIn r).length from by
        have := h.lt
        omega)
      rw [← Nat.add_assoc, getLast?_take_succ (by omega), (Document.charsIn_getElem? hin).1] at hc
      refine h.edge c ?_
      rw [getLast?_take_succ (List.getElem?_eq_some_iff.mp hin).1, hin, hc]
  follows := by
    obtain ⟨gap, rest, hgap, hdrop⟩ := h.follows
    refine ⟨gap, rest ++ d.chars.drop (d.offsetAt r.stop), hgap, ?_⟩
    rw [Document.drop_span (Nat.lt_of_le_of_lt (Nat.le_add_right a name.length) h.lt), hdrop]
    simp only [List.append_assoc, List.cons_append]

theorem isWord {text : List Char} (h : IsCall text a name) : IsWord text a (a + name.length) := by
  have hpos := List.length_pos_iff.mpr (isIdentifier_ne_nil h.identifier)
  refine ⟨by omega, fun k hk hlt => ?_, fun k hk => ?_, ?_⟩
  · obtain ⟨j, rfl⟩ := Nat.exists_eq_add_of_le hk
    have hj : j < name.length := by omega
    rw [identAt_of_get (h.getElem? (List.getElem?_eq_getElem hj))]
    exact isIdentifier_all h.identifier _ (List.getElem_mem hj)
  · have hlt : k < text.length := by
      have := h.lt
      omega
    have hlast := getLast?_take_succ hlt
    rw [List.getElem?_eq_getElem hlt, hk] at hlast
    rw [identAt_of_get (List.getElem?_eq_getElem hlt)]
    exact h.edge _ hlast
  · obtain ⟨gap, rest, hgap, hdrop⟩ := h.follows
    obtain ⟨c, hc, hno⟩ := after_name rest hgap (Nat.zero_le gap.length)
    rw [identAt_of_get (c := c), hno]
    rw [← List.getElem?_drop, hdrop, List.getElem?_append_right (Nat.le_refl _), Nat.sub_self, hc]

end IsCall

namespace Text.IsWord

variable {text : List Char}

theorem slice_chars (h : IsWord text a b) : ∀ c ∈ Document.slice text a b, isIdentChar c = true := by
  intro c hc
  obtain ⟨k, hk⟩ := List.mem_iff_getElem?.mp hc
  rw [Document.slice, List.getElem?_drop, List.getElem?_take] at hk
  split at hk
  · next hlt =>
    rw [← identAt_of_get hk]
    exact h.chars _ (Nat.le_add_right a k) hlt
  · cases hk

theorem slice_ne_nil (h : IsWord text a b) : Document.slice text a b ≠ [] := by
  have := h.lt
  have := h.stop_le_length
  apply List.ne_nil_of_length_pos
  rw [slice_length h.stop_le_length]
  omega

/-- A word that starts with no digit is called where, blanks aside, a parenthesis follows it. -/
theorem isCall (h : IsWord text a b)
    (hfollows : ∃ gap rest, (∀ c ∈ gap, isBlank c = true) ∧ text.drop b = gap ++ '(' :: rest)
    (hdigit : (Document.slice text a b).head?.any Char.isDigit = false) :
    IsCall text a (Document.slice text a b) where
  identifier := by
    rw [isIdentifier_eq h.slice_ne_nil h.slice_chars, hdigit]
    rfl
  edge := by
    intro c hc
    cases a with
    | zero => simp at hc
    | succ k =>
      have hlt := h.lt
      have := h.stop_le_length
      rw [getLast?_take_succ (by omega)] at hc
      rw [← identAt_of_get hc]
      exact h.before k rfl
  follows := by
    obtain ⟨gap, rest, hgap, hdrop⟩ := hfollows
    have hlt := h.lt
    have := h.stop_le_length
    exact ⟨gap, rest, hgap, by rw [← slice_append_drop (Nat.le_of_lt hlt) (by omega), hdrop]⟩

end Text.IsWord

/-- The ends of a word are found again where they are. -/
theorem Text.IsWord.offsets (h : IsWord d.chars a b) :
    d.offsetAt (d.positionAt a) = a ∧ d.offsetAt (d.positionAt b) = b := by
  have hlt := h.lt
  obtain ⟨i, l, j, k, hl, rfl, rfl, hk⟩ := Document.line_of_word h
  rw [d.positionAt_of_line hl (by omega), d.positionAt_of_line hl hk, d.offsetAt_of_line hl,
    d.offsetAt_of_line hl, Nat.min_eq_left hk, Nat.min_eq_left (show j ≤ _ by omega)]
  exact ⟨rfl, rfl⟩

/-- Where a call site ends in the text. -/
theorem CallSite.Stands.stop_offset {c : CallSite} (h : Stands d r a c) :
    d.offsetAt c.range.stop = d.offsetAt r.start + a + c.name.toList.length := by
  have hrun := Document.position_in_run h.call.length_pos h.call.plain (Nat.le_refl _)
  rw [h.stop, hrun.1]
  exact hrun.2

namespace Hover

/-- A word that is long enough, with a parenthesis right after it, and touched by a cursor. -/
structure OnWord (d : Document) (p : Position) (a b : Nat) : Prop where
  word : IsWord d.chars a b
  long : minWord ≤ b - a
  paren : d.chars[b]? = some '('
  start_le : d.positionAt a ≤ p
  le_stop : p ≤ d.positionAt b

variable {p : Position} {n : String}

/-- What follows a word on its line follows it in the text. -/
theorem paren_on_line (h : IsWord d.chars a b) : ∃ here,
    d.lineTexts[(d.positionAt b).line]? = some here ∧
      (here[(d.positionAt b).character]? = some '(' ↔ d.chars[b]? = some '(') := by
  obtain ⟨i, l, j, k, hl, rfl, rfl, hk⟩ := Document.line_of_word h
  rw [d.positionAt_of_line hl hk, Document.lineTexts, List.getElem?_map, hl, Option.map_some]
  refine ⟨l.chars, rfl, ?_⟩
  rcases Document.char_of_line hl hk with heq | ⟨hnone, c, hc, hbreak⟩
  · rw [heq]
  · rw [hnone, hc]
    refine iff_of_false nofun fun heq => ?_
    cases heq
    exact hbreak.elim nofun nofun

theorem callName?_of_word (h : IsWord d.chars a b) (hle : d.positionAt a ≤ p)
    (hle' : p ≤ d.positionAt b) : callName? d p =
      if minWord ≤ b - a ∧ d.chars[b]? = some '(' then
        some (String.ofList (Document.slice d.chars a b)) else none := by
  have hword : d.wordAt? p = some ⟨_, _, Position.le_trans hle hle'⟩ :=
    Document.wordAt?_eq_some.mpr ⟨a, b, h, rfl, rfl, hle, hle'⟩
  obtain ⟨here, hhere, hparen⟩ := paren_on_line h
  have hlength := slice_length h.stop_le_length (a := a)
  simp only [callName?, hword, Option.bind_eq_bind, Option.bind_some, hhere, Document.charsIn,
    h.offsets.1, h.offsets.2, hlength, hparen]
  by_cases hlong : b - a < minWord
  · rw [if_pos hlong, if_neg fun hboth => Nat.not_le.mpr hlong hboth.1]
  · rw [if_neg hlong]
    simp only [Nat.le_of_not_lt hlong, true_and]

theorem callName?_eq_some : callName? d p = some n ↔
    ∃ a b, OnWord d p a b ∧ n = String.ofList (Document.slice d.chars a b) := by
  constructor
  · intro hname
    obtain ⟨range, hrange, -⟩ := Option.bind_eq_some_iff.mp hname
    obtain ⟨a, b, hword, hstart, hstop, hle, hle'⟩ := Document.wordAt?_eq_some.mp hrange
    rw [hstart] at hle
    rw [hstop] at hle'
    rw [callName?_of_word hword hle hle'] at hname
    split at hname
    · next hboth =>
      cases hname
      exact ⟨a, b, ⟨hword, hboth.1, hboth.2, hle, hle'⟩, rfl⟩
    · cases hname
  · rintro ⟨a, b, h, rfl⟩
    rw [callName?_of_word h.word h.start_le h.le_stop, if_pos ⟨h.long, h.paren⟩]

/-- A call site that a cursor touches, with a name that is long enough and a parenthesis right after it. -/
structure Touches (d : Document) (p : Position) (c : CallSite) : Prop where
  long : minWord ≤ c.name.length
  paren : d.chars[d.offsetAt c.range.stop]? = some '('
  start_le : c.range.start ≤ p
  le_stop : p ≤ c.range.stop

/-- A call site of a span is the call under each cursor that touches it. -/
theorem Touches.named {c : CallSite} (h : Touches d p c) (hc : CallSite.Stands d r a c)
    (hr : splitsWord d.chars (d.offsetAt r.start) = false) : callName? d p = some c.name := by
  have hcall := hc.call.in_document hr
  have hparen := h.paren
  rw [hc.stop_offset] at hparen
  have hword := hcall.isWord
  refine callName?_eq_some.mpr ⟨_, _, ⟨hword, ?_, hparen, ?_, ?_⟩, ?_⟩
  · rw [Nat.add_sub_cancel_left]
    exact h.long
  · rw [← hc.start]
    exact h.start_le
  · rw [← hc.stop]
    exact h.le_stop
  · rw [hcall.slice_eq, String.ofList_toList]

/-- A call site whose name is the word under a cursor is touched by it. -/
theorem OnWord.touches {a' : Nat} {c : CallSite} (h : OnWord d p a b)
    (hc : CallSite.Stands d r a' c) (ha : d.offsetAt r.start + a' = a)
    (hname : c.name.toList = Document.slice d.chars a b) : Touches d p c := by
  subst ha
  have hlt := h.word.lt
  have hlength : c.name.toList.length = b - (d.offsetAt r.start + a') := by
    rw [hname, slice_length h.word.stop_le_length]
  have hstop := hc.stop_offset
  rw [hlength, Nat.add_sub_cancel' (Nat.le_of_lt hlt)] at hstop
  refine ⟨?_, ?_, ?_, ?_⟩
  · rw [← String.length_toList, hlength]
    exact h.long
  · rw [hstop]
    exact h.paren
  · rw [hc.start]
    exact h.start_le
  · rw [hc.stop, hlength, Nat.add_sub_cancel' (Nat.le_of_lt hlt)]
    exact h.le_stop

/-- The name under a cursor is that of the call site which the cursor touches, but for a name that starts
with a digit, which belongs to no call site. -/
theorem touched_iff (d : Document) (p : Position) (n : String) :
    (∃ c ∈ CallSite.inDocument d none [], Touches d p c ∧ c.name = n) ↔
      callName? d p = some n ∧ n.toList.head?.any Char.isDigit = false := by
  rw [CallSite.inDocument_whole]
  constructor
  · rintro ⟨c, hc, ht, rfl⟩
    obtain ⟨-, a, hstands⟩ := CallSite.mem_inDocument.mp hc
    have hsplits : splitsWord d.chars (d.offsetAt d.whole.start) = false := by
      rw [d.offsetAt_whole]
      rfl
    refine ⟨ht.named hstands hsplits, ?_⟩
    have hidentifier := hstands.call.identifier
    rw [isIdentifier_eq (isIdentifier_ne_nil hidentifier) (isIdentifier_all hidentifier)] at hidentifier
    exact Bool.not_eq_true' _ ▸ hidentifier
  · rintro ⟨hname, hdigit⟩
    obtain ⟨a, b, h, rfl⟩ := callName?_eq_some.mp hname
    rw [String.toList_ofList] at hdigit
    have hcall : IsCall (d.charsIn d.whole) a (Document.slice d.chars a b) := by
      rw [d.charsIn_whole]
      obtain ⟨hb, heq⟩ := List.getElem?_eq_some_iff.mp h.paren
      refine h.word.isCall ⟨[], d.chars.drop (b + 1), nofun, ?_⟩ hdigit
      rw [List.drop_eq_getElem_cons hb, heq, List.nil_append]
    have hstands := CallSite.Stands.of_call hcall
    refine ⟨_, CallSite.mem_inDocument.mpr ⟨List.not_mem_nil, a, hstands⟩, ?_, rfl⟩
    refine h.touches hstands ?_ (String.toList_ofList ..)
    rw [d.offsetAt_whole, Nat.zero_add]

def numeral : Document := ⟨"file:///w/a.js", "12(3);", none, 0⟩

/-- A number before a parenthesis is no call. -/
theorem numeral_named : ¬ ∀ (d : Document) (p : Position) (n : String), callName? d p = some n ↔
    ∃ c ∈ CallSite.inDocument d none [], Touches d p c ∧ c.name = n := by
  intro h
  obtain ⟨c, hc, -⟩ := (h numeral ⟨0, 1⟩ "12").mp (by decide +kernel)
  have hnone : CallSite.inDocument numeral none [] = [] := by decide +kernel
  rw [hnone] at hc
  cases hc

end Hover

end Callees

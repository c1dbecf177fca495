import Mathlib.Control.Monad.Basic
import Callees.Proofs.BraceScope
import Callees.Proofs.CallUnderCursor
import Callees.Proofs.HeaderForms

namespace Callees.Text

variable {text : List Char}

/-- A word between two parts of a text that keep apart from it. -/
theorem isWord_of_parts {u w cs : List Char} (hu : u.getLast?.any isIdentChar = false)
    (hw : isIdentifier w = true) (hcs : cs.head?.any isIdentChar = false) :
    IsWord (u ++ (w ++ cs)) u.length (u.length + w.length) where
  lt := Nat.lt_add_of_pos_right (List.length_pos_iff.mpr (isIdentifier_ne_nil hw))
  chars := by
    intro k hk hlt
    rw [identAt_of_get (c := w[k - u.length])]
    · exact isIdentifier_all hw _ (List.getElem_mem _)
    · rw [List.getElem?_append_right hk, List.getElem?_append_left (by omega), List.getElem?_eq_getElem]
  before := by
    intro k hk
    rw [List.getLast?_eq_getElem?, ← hk, Nat.add_sub_cancel] at hu
    rw [identAt, List.getElem?_append_left (by omega)]
    exact hu
  after := by
    rw [List.head?_eq_getElem?] at hcs
    rw [identAt, List.getElem?_append_right (Nat.le_add_right ..), Nat.add_sub_cancel_left,
      List.getElem?_append_right (Nat.le_refl _), Nat.sub_self]
    exact hcs

theorem slice_slice {base s a b : Nat} (hb : base + b ≤ s) :
    Document.slice (Document.slice text base s) a b = Document.slice text (base + a) (base + b) := by
  rw [Document.slice, Block.take_slice, Nat.min_eq_left hb, Document.slice, List.drop_drop, Document.slice]

theorem identAt_slice {base s k : Nat} (hk : base + k < s) :
    identAt (Document.slice text base s) k = identAt text (base + k) := by
  rw [identAt, Document.slice, List.getElem?_drop, List.getElem?_take_of_lt hk, identAt]

namespace IsWord

variable {base s a b : Nat}

/-- A run of identifier characters that stops is the end of a word. -/
theorem of_run (hlt : a < b) (hchars : ∀ k, a ≤ k → k < b → identAt text k = true)
    (hafter : identAt text b = false) : ∃ a' ≤ a, IsWord text a' b := by
  induction a with
  | zero => exact ⟨0, Nat.le_refl 0, hlt, hchars, nofun, hafter⟩
  | succ a ih =>
    cases hbefore : identAt text a with
    | false =>
      refine ⟨a + 1, Nat.le_refl _, hlt, hchars, fun k hk => ?_, hafter⟩
      rwa [Nat.succ.inj hk]
    | true =>
      have hmore : ∀ k, a ≤ k → k < b → identAt text k = true := by
        intro k hk hk'
        rcases Nat.eq_or_lt_of_le hk with rfl | hlater
        · exact hbefore
        · exact hchars k hlater hk'
      obtain ⟨a', hle, hword⟩ := ih (Nat.lt_of_succ_lt hlt) hmore
      exact ⟨a', Nat.le_succ_of_le hle, hword⟩

theorem slice_bound (h : IsWord (Document.slice text base s) a b) : base + b ≤ s := by
  have hlt := h.lt
  have hle := h.stop_le_length
  rw [Document.slice, List.length_drop, List.length_take] at hle
  omega

/-- A part of a text that ends where no word goes on can only cut a word where the part begins. -/
theorem of_slice (h : IsWord (Document.slice text base s) a b) (hs : identAt text s = false) :
    (∃ a' ≤ base + a, IsWord text a' (base + b)) ∧
      (IsWord text (base + a) (base + b) ↔ ¬ (a = 0 ∧ splitsWord text base = true)) := by
  have hlt := h.lt
  have hbound := h.slice_bound
  have hchars : ∀ k, base + a ≤ k → k < base + b → identAt text k = true := by
    intro k hk hk'
    obtain ⟨j, rfl⟩ := Nat.exists_eq_add_of_le (Nat.le_of_add_right_le hk)
    rw [← identAt_slice (s := s) (by omega)]
    exact h.chars j (by omega) (by omega)
  have hafter : identAt text (base + b) = false := by
    rcases Nat.eq_or_lt_of_le hbound with heq | hin
    · rw [heq, hs]
    · rw [← identAt_slice hin]
      exact h.after
  refine ⟨of_run (by omega) hchars hafter, fun hword => ?_, fun hwhole =>
    ⟨by omega, hchars, fun k hk => ?_, hafter⟩⟩
  · rintro ⟨rfl, hsplit⟩
    cases base with
    | zero => cases hsplit
    | succ k =>
      rw [splitsWord, hword.before k rfl, Bool.false_and] at hsplit
      cases hsplit
  · cases a with
    | zero =>
      refine Bool.eq_false_iff.mpr fun hbefore => hwhole ⟨rfl, ?_⟩
      obtain rfl : base = k + 1 := hk.symm
      rw [splitsWord, hbefore, hchars _ (Nat.le_refl _) (by omega)]
      rfl
    | succ a =>
      obtain rfl : k = base + a := by omega
      rw [← identAt_slice (s := s) (by omega)]
      exact h.before a rfl

end IsWord

end Callees.Text

namespace Callees.Header

open Pattern Text

/-- The match of the header that `find?` finds. -/
def capture? (preamble : List Char) : Option Match :=
  Shape.inOrder.findSome? fun shape => (shape.pattern.search preamble).filter fun m =>
    !(shape == .method && (ofMatch preamble m).name.any notMethods.contains)

theorem find?_eq_capture (preamble : List Char) :
    find? preamble = (capture? preamble).map (ofMatch preamble) := by
  have hshape : ofShape preamble = fun shape => ((shape.pattern.search preamble).filter fun m =>
      !(shape == .method && (ofMatch preamble m).name.any notMethods.contains)).map (ofMatch preamble) := by
    funext shape
    rw [ofShape, Option.filter_map]
    rfl
  rw [find?, hshape, capture?, List.map_findSome?]
  rfl

theorem parenthesized_head {s t : Cursor} (h : parenthesized.Reads s t) :
    s.rest.head?.any isIdentChar = false := by
  obtain ⟨-, b, a, rest, hb, ha, hs⟩ := parenthesized_opens h
  rw [hs]
  cases b with
  | nil => rcases ha with rfl | rfl <;> rfl
  | cons c b => exact isIdentChar_of_isBlank (hb c List.mem_cons_self)

theorem named_edge {q : Pattern} {s t : Cursor} (h : (next (named identifier) q).Reads s t) :
    s.before.any isIdentChar = false := by
  cases h with
  | next name => exact (named_identifier_reads name).1

/-- An identifier stands between `a` and `b` in what is to come at a cursor, and no identifier character right
before or after it. -/
def NameAhead (s : Cursor) (a b : Nat) : Prop :=
  ∃ x w cs, s.rest = x ++ (w ++ cs) ∧ (x.getLast?.or s.before).any isIdentChar = false ∧
    isIdentifier w = true ∧ cs.head?.any isIdentChar = false ∧ a = s.offset + x.length ∧ b = a + w.length

theorem NameAhead.here {s : Cursor} {w cs : List Char} (hedge : s.before.any isIdentChar = false)
    (hw : isIdentifier w = true) (hrest : s.rest = w ++ cs) (hcs : cs.head?.any isIdentChar = false) :
    NameAhead s s.offset (s.offset + w.length) :=
  ⟨[], w, cs, hrest, hedge, hw, hcs, rfl, rfl⟩

theorem NameAhead.isWord {text : List Char} {o a b : Nat} (h : NameAhead (.at_ text o) a b)
    (ho : o ≤ text.length) : IsWord text a b ∧ isIdentifier (Document.slice text a b) = true := by
  obtain ⟨x, w, cs, hrest, hedge, hw, hcs, rfl, rfl⟩ := h
  obtain ⟨htext, hlength, hbefore⟩ := Cursor.at_split ho hrest
  rw [← hbefore] at hedge
  have hword := isWord_of_parts hedge hw hcs
  have hslice := Document.slice_parts (text.take o ++ x) w cs
  rw [← htext, hlength] at hword hslice
  refine ⟨hword, ?_⟩
  rw [Cursor.at_, hslice]
  exact hw

/-- A name that a shape takes is an identifier that nothing of its kind touches. -/
theorem shape_name {shape : Shape} {s t : Cursor} {a b : Nat} (h : shape.pattern.Reads s t)
    (hs : s.name = none) (hname : t.name = some (a, b)) : NameAhead s a b := by
  cases shape with
  | assigned =>
    obtain ⟨w, cs, hw, hrest, hcs, ht⟩ := valued_name (.inl rfl) h
    cases hname.symm.trans ht
    exact .here (named_edge h) hw hrest hcs
  | keyed =>
    obtain ⟨w, cs, hw, hrest, hcs, ht⟩ := valued_name (.inr rfl) h
    cases hname.symm.trans ht
    exact .here (named_edge h) hw hrest hcs
  | method =>
    obtain ⟨hedge, w, u, hw, hrest, hparens, ht⟩ := method_reads h
    cases hname.symm.trans ht
    exact .here hedge hw hrest (parenthesized_head hparens)
  | declared =>
    obtain ⟨g, v, hg, hparens, ⟨-, ht⟩ | ⟨w, hw, hne, hrest, ht⟩⟩ := declared_reads h
    · rw [ht, hs] at hname
      cases hname
    · cases hname.symm.trans ht
      refine ⟨keyword ++ g, w, v.rest, by rw [hrest, List.append_assoc], ?_, hw,
        parenthesized_head hparens, rfl, rfl⟩
      rw [List.getLast?_append, List.getLast?_eq_some_getLast hne, Option.some_or, Option.some_or]
      rcases hg _ (List.getLast_mem hne) with hblank | hstar
      · exact isIdentChar_of_isBlank hblank
      · rw [hstar]
        rfl

/-- In the preamble, the name of a header is a whole word. -/
theorem capture?_name {preamble : List Char} {m : Match} {a b : Nat} (h : capture? preamble = some m)
    (hname : m.name = some (a, b)) :
    IsWord preamble a b ∧ isIdentifier (Document.slice preamble a b) = true := by
  obtain ⟨shape, -, hshape⟩ := List.exists_of_findSome?_eq_some h
  obtain ⟨hm, -⟩ := Option.filter_eq_some_iff.mp hshape
  obtain ⟨hfound, hle⟩ := search_eq_some hm
  obtain ⟨t, ht, hmt⟩ := matchIn_reads hfound
  rw [hmt] at hname
  exact (shape_name ht rfl hname).isWord hle

theorem ofMatch_span {preamble : List Char} {m : Match} {a b : Nat} (hname : m.name = some (a, b)) :
    (ofMatch preamble m).name = some (String.ofList (Document.slice preamble a b)) := by
  rw [ofMatch, hname, Document.slice, List.drop_take]
  rfl

end Callees.Header

namespace Callees.Scope

open Block Text

variable {window : Int} {d : Document} {p : Position} {scope : Scope}

/-- The header right before offset `s` takes its name from the text between `a` and `b`. -/
def NamedAt (window : Int) (text : List Char) (s a b : Nat) : Prop :=
  ∃ m j k, Header.capture? (Document.slice text (s - window).toNat s) = some m ∧ m.name = some (j, k) ∧
    a = (s - window).toNat + j ∧ b = (s - window).toNat + k

/-- A scope with a name is named by an identifier with which a word of the document ends. The name is that whole
word unless the window begins with the name and within a word. -/
theorem name_whole_iff (h : ofBraces window d p = .ok (some scope)) (hname : scope.name ≠ anonymous) :
    ∃ s e found a b, Innermost window d p s e found ∧ NamedAt window d.chars s a b ∧
      scope.name = String.ofList (Document.slice d.chars a b) ∧
      isIdentifier (Document.slice d.chars a b) = true ∧ (∃ a' ≤ a, IsWord d.chars a' b) ∧
      (IsWord d.chars a b ↔ ¬ (a = (s - window).toNat ∧ splitsWord d.chars a = true)) := by
  rcases ofBraces_cases window d p with ⟨hnone, -⟩ | ⟨s, e, found, r, hi, hsome, -⟩
  · cases hnone.symm.trans h
  cases hsome.symm.trans h
  have hheader := hi.header
  rw [headerBefore, Header.find?_eq_capture] at hheader
  obtain ⟨m, hm, rfl⟩ := Option.map_eq_some_iff.mp hheader
  cases hspan : m.name with
  | none =>
    rw [Header.ofMatch, hspan] at hname
    exact absurd rfl hname
  | some span =>
    obtain ⟨j, k⟩ := span
    obtain ⟨hword, hidentifier⟩ := Header.capture?_name hm hspan
    obtain ⟨hend, hwhole⟩ := hword.of_slice (identAt_of_get hi.around.block.opens)
    rw [slice_slice hword.slice_bound] at hidentifier
    refine ⟨s, e, _, _, _, hi, ⟨m, j, k, hm, hspan, rfl, rfl⟩, ?_, hidentifier, hend, ?_⟩
    · rw [Header.ofMatch_span hspan, slice_slice hword.slice_bound]
      rfl
    · rw [hwhole, Nat.add_eq_left]
      exact not_congr (and_congr_right fun hj => by rw [hj, Nat.add_zero])

def handler : Document := ⟨"file:///w/a.js", "function handler(a) \x7b x(); \x7d", none, 0⟩

theorem name_whole_iff_handler : ∃ scope, ofBraces 16 handler ⟨0, 22⟩ = .ok (some scope) ∧
    scope.name ≠ anonymous ∧ ∃ s e found a b, Innermost 16 handler ⟨0, 22⟩ s e found ∧
      NamedAt 16 handler.chars s a b ∧ scope.name = String.ofList (Document.slice handler.chars a b) ∧
      isIdentifier (Document.slice handler.chars a b) = true ∧ (∃ a' ≤ a, IsWord handler.chars a' b) ∧
      (IsWord handler.chars a b ↔ ¬ (a = (s - (16 : Int)).toNat ∧ splitsWord handler.chars a = true)) := by
  have hscope : ofBraces 16 handler ⟨0, 22⟩ = .ok (some ⟨⟨⟨0, 9⟩, ⟨0, 28⟩, by decide⟩, "handler"⟩) := by
    decide +kernel
  exact ⟨_, hscope, by decide, name_whole_iff hscope (by decide)⟩

/-- A window that begins within the name leaves the scope a name that is no word of the document. -/
theorem name_cut : ¬ ∀ (window : Int) (d : Document) (p : Position) (scope : Scope), 1 ≤ window →
    ofBraces window d p = .ok (some scope) → scope.name ≠ anonymous →
      ∃ a b, IsWord d.chars a b ∧ scope.name = String.ofList (Document.slice d.chars a b) := by
  intro h
  have hscope : ofBraces 10 handler ⟨0, 22⟩ = .ok (some ⟨⟨⟨0, 10⟩, ⟨0, 28⟩, by decide⟩, "andler"⟩) := by
    decide +kernel
  obtain ⟨a, b, hword, hname⟩ := h 10 handler ⟨0, 22⟩ _ (by decide) hscope (by decide)
  obtain ⟨n, rfl⟩ := Nat.exists_eq_add_of_le (Nat.le_of_lt hword.lt)
  have hmem := Document.mem_words.mpr hword
  have hwords : Document.wordsFrom 0 0 handler.chars = [(0, 8), (9, 7), (17, 1), (22, 1)] := by
    decide +kernel
  rw [hwords] at hmem
  have hother : ∀ word ∈ [(0, 8), (9, 7), (17, 1), (22, 1)],
      "andler" ≠ String.ofList (Document.slice handler.chars word.1 (word.1 + word.2)) := by
    decide +kernel
  exact hother _ hmem hname

end Callees.Scope

import Callees.CallSite
import Callees.Proofs.Lines
import Callees.Proofs.Searching
import Callees.Proofs.Spelling

namespace Callees.Text

theorem isAlphanum_le {c : Char} (h : c.isAlphanum = true) : c.val ≤ 'z'.val := by
  rcases (Bool.or_eq_true_iff.mp h : c.isAlpha = true ∨ c.isDigit = true) with h | h
  · rcases (Bool.or_eq_true_iff.mp h : c.isUpper = true ∨ c.isLower = true) with h | h
    · exact UInt32.le_trans (of_decide_eq_true h).2 (by decide)
    · exact of_decide_eq_true (Bool.and_eq_true_iff.mp h).2
  · exact UInt32.le_trans (of_decide_eq_true (Bool.and_eq_true_iff.mp h).2) (by decide)

theorem isIdentChar_lt {c : Char} (h : isIdentChar c = true) : c.toNat < 128 := by
  simp only [isIdentChar, Bool.or_eq_true, beq_iff_eq] at h
  rcases h with (h | rfl) | rfl
  · exact Nat.lt_of_le_of_lt (UInt32.le_iff_toNat_le.mp (isAlphanum_le h)) (by decide)
  · decide
  · decide

theorem ascii_blank : ∀ n < 128,
    isIdentChar (Char.ofNat n) = true → isBlank (Char.ofNat n) = false := by
  decide

theorem isIdentChar_of_isBlank {c : Char} (h : isBlank c = true) : isIdentChar c = false := by
  apply Bool.eq_false_iff.mpr
  intro hc
  have hblank := ascii_blank c.toNat (isIdentChar_lt hc)
  rw [Char.ofNat_toNat] at hblank
  rw [hblank hc] at h
  cases h

theorem not_isBreak_of_isIdentChar {c : Char} (h : isIdentChar c = true) : ¬ IsBreak c := by
  rintro (rfl | rfl) <;> cases h

theorem isIdentChar_of_isIdentStart {c : Char} (h : isIdentStart c = true) :
    isIdentChar c = true := by
  simp only [isIdentStart, isIdentChar, Char.isAlphanum, Bool.or_eq_true] at h ⊢
  exact h.imp_left (Or.imp_left .inl)

theorem isIdentifier_all {name : List Char} (h : isIdentifier name = true) :
    ∀ c ∈ name, isIdentChar c = true := by
  cases name with
  | nil => cases h
  | cons c cs =>
    obtain ⟨hc, hcs⟩ := Bool.and_eq_true_iff.mp h
    exact List.forall_mem_cons.mpr ⟨isIdentChar_of_isIdentStart hc, List.all_eq_true.mp hcs⟩

theorem isIdentifier_ne_nil {name : List Char} (h : isIdentifier name = true) : name ≠ [] := by
  rintro rfl
  cases h

/-- Where a name is read, it is the whole word. -/
theorem word_unique {w w' cs cs' : List Char} (h : w ++ cs = w' ++ cs') (hw : isIdentifier w = true)
    (hw' : isIdentifier w' = true) (hcs : cs.head?.any isIdentChar = false)
    (hcs' : cs'.head?.any isIdentChar = false) : w = w' := by
  have hrun {w cs : List Char} (hw : isIdentifier w = true) (hcs : cs.head?.any isIdentChar = false) :
      (w ++ cs).takeWhile isIdentChar = w := by
    rw [List.takeWhile_append_of_pos (isIdentifier_all hw)]
    cases cs with
    | nil => exact List.append_nil w
    | cons c cs =>
      have hc : ¬ isIdentChar c = true := Bool.eq_false_iff.mp hcs
      rw [List.takeWhile_cons_of_neg hc, List.append_nil]
  rw [← hrun hw hcs, h, hrun hw' hcs']

end Callees.Text

namespace Callees

open Text

/-- A name stands at offset `a`, with no identifier character before it, and then, blanks aside, a
parenthesis. -/
structure IsCall (text : List Char) (a : Nat) (name : List Char) : Prop where
  identifier : isIdentifier name = true
  edge : ∀ c, (text.take a).getLast? = some c → isIdentChar c = false
  follows : ∃ gap rest, (∀ c ∈ gap, isBlank c = true) ∧ text.drop a = name ++ (gap ++ '(' :: rest)

namespace IsCall

variable {text : List Char} {a : Nat} {name : List Char}

theorem lt (h : IsCall text a name) : a + name.length < text.length := by
  obtain ⟨gap, rest, -, hdrop⟩ := h.follows
  have hlen := congrArg List.length hdrop
  simp only [List.length_drop, List.length_append, List.length_cons] at hlen
  omega

/-- What comes after a name ends it. -/
theorem unique {name' : List Char} (h : IsCall text a name) (h' : IsCall text a name') :
    name = name' := by
  have hends {gap rest : List Char} (hgap : ∀ c ∈ gap, isBlank c = true) :
      (gap ++ '(' :: rest).head?.any isIdentChar = false := by
    cases gap with
    | nil => rfl
    | cons b gap => exact isIdentChar_of_isBlank (hgap b List.mem_cons_self)
  obtain ⟨gap, rest, hgap, hdrop⟩ := h.follows
  obtain ⟨gap', rest', hgap', hdrop'⟩ := h'.follows
  exact word_unique (hdrop.symm.trans hdrop') h.identifier h'.identifier (hends hgap) (hends hgap')

theorem getElem? (h : IsCall text a name) {k : Nat} {c : Char} (hk : name[k]? = some c) :
    text[a + k]? = some c := by
  obtain ⟨gap, rest, -, hdrop⟩ := h.follows
  rw [← List.getElem?_drop, hdrop,
    List.getElem?_append_left (List.getElem?_eq_some_iff.mp hk).1, hk]

/-- Neither a blank nor the parenthesis belongs to a name. -/
theorem after_name {gap : List Char} (rest : List Char) (hgap : ∀ c ∈ gap, isBlank c = true)
    {i : Nat} (hi : i ≤ gap.length) :
    ∃ c, (gap ++ '(' :: rest)[i]? = some c ∧ isIdentChar c = false := by
  rcases Nat.lt_or_eq_of_le hi with hlt | rfl
  · refine ⟨gap[i], ?_, isIdentChar_of_isBlank (hgap _ (List.getElem_mem hlt))⟩
    rw [List.getElem?_append_left hlt, List.getElem?_eq_getElem hlt]
  · exact ⟨'(', by simp, rfl⟩

/-- No call begins within another one's name, nor before its parenthesis. -/
theorem apart {b : Nat} {name' gap rest : List Char} (h : IsCall text a name)
    (h' : IsCall text b name') (hgap : ∀ c ∈ gap, isBlank c = true)
    (hdrop : text.drop a = name ++ (gap ++ '(' :: rest)) (hab : a < b) :
    a + name.length + gap.length < b := by
  apply Nat.lt_of_not_le
  intro hle
  obtain ⟨k, rfl⟩ := Nat.exists_eq_add_of_le hab
  rcases Nat.lt_or_ge k name.length with hin | hout
  · -- the character before it belongs to the name
    have hc := h.getElem? (List.getElem?_eq_getElem hin)
    have hlast : (text.take (a + 1 + k)).getLast? = some name[k] := by
      rw [Nat.add_right_comm, List.take_add_one, hc, Option.toList_some, List.getLast?_concat]
    have hno := h'.edge _ hlast
    rw [isIdentifier_all h.identifier _ (List.getElem_mem hin)] at hno
    cases hno
  · -- it stands on a blank or on the parenthesis
    obtain ⟨c, cs, rfl⟩ : ∃ c cs, name' = c :: cs :=
      List.exists_cons_of_ne_nil (isIdentifier_ne_nil h'.identifier)
    have hc := h'.getElem? (show (c :: cs)[0]? = some c from rfl)
    have hchar := isIdentifier_all h'.identifier c List.mem_cons_self
    obtain ⟨b, hb, hno⟩ := after_name rest hgap
      (show k + 1 - name.length ≤ gap.length by omega)
    have hat : text[a + 1 + k + 0]? = some b := by
      rw [show a + 1 + k + 0 = a + (k + 1) by omega, ← List.getElem?_drop, hdrop,
        List.getElem?_append_right (by omega)]
      exact hb
    cases hc.symm.trans hat
    rw [hchar] at hno
    cases hno

end IsCall

namespace CallSite

open Pattern

theorem shape_reads {s t : Cursor} : shape.Reads s t ↔
    (∀ c, s.before = some c → isIdentChar c = false) ∧
    ∃ name gap, isIdentifier name = true ∧ (∀ c ∈ gap, isBlank c = true) ∧
      s.rest = name ++ (gap ++ '(' :: t.rest) ∧
      t = ⟨some '(', s.offset + name.length + gap.length + 1, t.rest,
        some (s.offset, s.offset + name.length)⟩ := by
  have htail := spells_blanks.next (spells_char '(')
  constructor
  · intro h
    cases h with
    | next edge rest =>
      cases edge with
      | wordEdge edge =>
        cases rest with
        | next body rest =>
          cases body with
          | named body =>
            obtain ⟨name, hname, hs, hu⟩ := (spells_identifier s _).mp body
            obtain ⟨_, ⟨gap, _, hgap, rfl, rfl⟩, hu', ht⟩ := (htail _ t).mp rest
            refine ⟨fun c hc => ?_, name, gap, hname, hgap, ?_, ?_⟩
            · simpa [hc] using edge
            · rw [hs]
              simpa using hu'
            · rw [ht, hu]
              simp [Cursor.past, Nat.add_assoc]
  · rintro ⟨hedge, name, gap, hname, hgap, hs, ht⟩
    have hbody := (spells_identifier s (s.past name (gap ++ '(' :: t.rest))).mpr
      ⟨name, hname, hs, rfl⟩
    refine .next (.wordEdge ?_) (.next (.named hbody) ?_)
    · cases hb : s.before with
      | none => rfl
      | some c => exact hedge c hb
    · refine (htail _ t).mpr ⟨gap ++ ['('], ⟨gap, ['('], hgap, rfl, rfl⟩, ?_, ?_⟩
      · simp [Cursor.past]
      · rw [ht]
        simp [Cursor.past, Nat.add_assoc]

variable {text : List Char}

theorem matchIn_isCall {a : Nat} {m : Match} (h : shape.matchIn text a = some m) :
    ∃ name gap rest, IsCall text a name ∧ (∀ c ∈ gap, isBlank c = true) ∧
      text.drop a = name ++ (gap ++ '(' :: rest) ∧
      m = ⟨a, a + name.length + gap.length + 1, some (a, a + name.length)⟩ := by
  obtain ⟨t, hr, rfl⟩ := matchIn_reads h
  obtain ⟨hedge, name, gap, hname, hgap, hs, ht⟩ := shape_reads.mp hr
  refine ⟨name, gap, t.rest, ⟨hname, hedge, gap, t.rest, hgap, hs⟩, hgap, hs, ?_⟩
  rw [ht]
  rfl

theorem isCall_matchIn {a : Nat} {name : List Char} (h : IsCall text a name) :
    ∃ m, shape.matchIn text a = some m ∧ m.name = some (a, a + name.length) := by
  obtain ⟨gap, rest, hgap, hdrop⟩ := h.follows
  have hr : shape.Reads (.at_ text a) ⟨some '(', a + name.length + gap.length + 1, rest,
      some (a, a + name.length)⟩ :=
    shape_reads.mpr ⟨h.edge, name, gap, h.identifier, hgap, hdrop, rfl⟩
  obtain ⟨m, hm⟩ := Option.isSome_iff_exists.mp (matchIn_isSome hr)
  obtain ⟨name', gap', rest', h', -, -, rfl⟩ := matchIn_isCall hm
  exact ⟨_, hm, by rw [h.unique h']⟩

/-- What a scan finds are calls. -/
theorem isCall_of_mem {m : Match} (h : m ∈ shape.occurrences text) :
    ∃ name, IsCall text m.start name ∧ m.name = some (m.start, m.start + name.length) := by
  obtain ⟨name, gap, rest, hcall, -, -, hm⟩ := matchIn_isCall (mem_occurrences h).1
  exact ⟨name, hcall, congrArg Match.name hm⟩

/-- A scan finds every call. -/
theorem mem_of_isCall {a : Nat} {name : List Char} (h : IsCall text a name) :
    ∃ m ∈ shape.occurrences text, m.start = a ∧ m.name = some (a, a + name.length) := by
  obtain ⟨m', hm', hname'⟩ := isCall_matchIn h
  obtain ⟨m, hmem, hle, hcover⟩ := occurrences_cover (show a < text.length from by
    have := h.lt
    omega) (Option.isSome_of_eq_some hm')
  have hm := (mem_occurrences hmem).1
  rcases Nat.eq_or_lt_of_le hle with heq | hlt
  · rw [heq, hm'] at hm
    cases hm
    exact ⟨m', hmem, heq, hname'⟩
  · obtain ⟨name', gap, rest, hcall, hgap, hdrop, hstop⟩ := matchIn_isCall hm
    have hlater := hcall.apart h hgap hdrop hlt
    have := congrArg Match.stop hstop
    simp only at this
    omega

end CallSite

end Callees

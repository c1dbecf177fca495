import Callees.Proofs.Blocks
import Callees.Proofs.Calls
import Callees.Proofs.Offsets

namespace Callees

namespace Text

/-- Whether an identifier character stands at an offset. -/
def identAt (text : List Char) (k : Nat) : Bool := text[k]?.any isIdentChar

theorem identAt_of_get {text : List Char} {k : Nat} {c : Char} (h : text[k]? = some c) :
    identAt text k = isIdentChar c := by
  rw [identAt, h, Option.any_some]

theorem identAt_past {text : List Char} {k : Nat} (h : text.length ≤ k) :
    identAt text k = false := by
  rw [identAt, List.getElem?_eq_none h, Option.any_none]

theorem lt_of_identAt {text : List Char} {k : Nat} (h : identAt text k = true) : k < text.length := by
  apply Nat.lt_of_not_le
  intro hle
  rw [identAt_past hle] at h
  cases h

/-- Identifier characters from `a` to before `b`, and none right before or after them. -/
structure IsWord (text : List Char) (a b : Nat) : Prop where
  lt : a < b
  chars : ∀ k, a ≤ k → k < b → identAt text k = true
  before : ∀ k, k + 1 = a → identAt text k = false
  after : identAt text b = false

namespace IsWord

variable {text : List Char} {a b a' b' : Nat}

theorem start_le (h : IsWord text a b) (h' : IsWord text a' b') (ha : a' ≤ b) : a' ≤ a := by
  apply Nat.le_of_not_lt
  intro hlt
  obtain ⟨k, rfl⟩ := Nat.exists_eq_add_of_le' hlt
  have hin := h.chars (k + a) (by omega) (by omega)
  rw [h'.before (k + a) (by omega)] at hin
  cases hin

/-- No place touches two words. -/
theorem unique {x : Nat} (h : IsWord text a b) (h' : IsWord text a' b') (ha : a ≤ x) (hb : x ≤ b)
    (ha' : a' ≤ x) (hb' : x ≤ b') : a = a' ∧ b = b' := by
  have hstart : a = a' :=
    Nat.le_antisymm (h'.start_le h (by omega)) (h.start_le h' (by omega))
  have hno {b b' : Nat} (h : IsWord text a b) (h' : IsWord text a' b') : ¬ b < b' := by
    intro hlt
    have hin := h'.chars b (by have := h.lt; omega) hlt
    rw [h.after] at hin
    cases hin
  have := hno h h'
  have := hno (hstart ▸ h') (hstart ▸ h)
  exact ⟨hstart, by omega⟩

theorem next (h : IsWord text a b) (h' : IsWord text a' b') (ha : a ≤ a') :
    (a' = a ∧ b' = b) ∨ b < a' := by
  rcases Nat.lt_or_ge b a' with hlt | hle
  · exact .inr hlt
  · exact .inl (h'.unique h (Nat.le_refl a') (Nat.le_of_lt h'.lt) ha hle)

theorem stop_le_length (h : IsWord text a b) : b ≤ text.length := by
  have hlt := h.lt
  have := lt_of_identAt (h.chars (b - 1) (by omega) (by omega))
  omega

end IsWord

end Text

namespace Document

open Text

variable {text : List Char}

/-- What the scan for words knows on its way: the last `run` characters belong to one word. -/
structure Within (text : List Char) (o run : Nat) : Prop where
  le : run ≤ o
  chars : ∀ k, o - run ≤ k → k < o → identAt text k = true
  before : ∀ k, k + 1 = o - run → identAt text k = false

theorem Within.isWord {o run : Nat} (h : Within text o run) (hrun : run ≠ 0)
    (ho : identAt text o = false) : IsWord text (o - run) o :=
  have := h.le
  ⟨by omega, h.chars, h.before, ho⟩

theorem Within.between {o : Nat} (ho : identAt text o = false) : Within text (o + 1) 0 :=
  ⟨Nat.zero_le _, fun k hk hlt => by omega, fun k hk => by
    obtain rfl : k = o := by omega
    exact ho⟩

theorem mem_wordsFrom {o run a n : Nat} {cs : List Char} (hcs : text.drop o = cs)
    (h : Within text o run) :
    (a, n) ∈ wordsFrom o run cs ↔ o - run ≤ a ∧ IsWord text a (a + n) := by
  induction cs generalizing o run with
  | nil =>
    have hend : text.length ≤ o := List.drop_eq_nil_iff.mp hcs
    have ho : identAt text o = false := identAt_past hend
    rw [wordsFrom]
    split
    · next hrun =>
      refine iff_of_false List.not_mem_nil ?_
      rintro ⟨hle, hw⟩
      have := hw.stop_le_length
      have := hw.lt
      omega
    · next hrun =>
      have hword := h.isWord hrun ho
      rw [List.mem_singleton, Prod.mk.injEq]
      constructor
      · rintro ⟨rfl, rfl⟩
        rw [Nat.sub_add_cancel h.le]
        exact ⟨Nat.le_refl _, hword⟩
      · rintro ⟨hle, hw⟩
        have := hw.stop_le_length
        have := hw.lt
        have := hword.next hw hle
        have := h.le
        omega
  | cons c cs ih =>
    obtain ⟨hc, hcs'⟩ := Block.drop_cons hcs
    rw [wordsFrom]
    split
    · next hident =>
      have ho : identAt text o = true := (identAt_of_get hc).trans hident
      have hmore : Within text (o + 1) (run + 1) := by
        refine ⟨Nat.succ_le_succ h.le, fun k hk hlt => ?_, fun k hk => h.before k (by omega)⟩
        rcases Nat.lt_succ_iff_lt_or_eq.mp hlt with hlt | rfl
        · exact h.chars k (by omega) hlt
        · exact ho
      rw [ih hcs' hmore, Nat.add_sub_add_right]
    · next hident =>
      have ho : identAt text o = false :=
        (identAt_of_get hc).trans (Bool.eq_false_iff.mpr hident)
      split
      · next hrun =>
        subst hrun
        rw [ih hcs' (.between ho)]
        constructor
        · rintro ⟨hle, hw⟩
          exact ⟨by omega, hw⟩
        · rintro ⟨hle, hw⟩
          refine ⟨Nat.lt_of_le_of_ne hle ?_, hw⟩
          rintro rfl
          have hin := hw.chars _ (Nat.le_refl _) hw.lt
          cases hin.symm.trans ho
      · next hrun =>
        have hword := h.isWord hrun ho
        have hrun := h.le
        rw [List.mem_cons, Prod.mk.injEq, ih hcs' (.between ho)]
        constructor
        · rintro (⟨rfl, rfl⟩ | ⟨hle, hw⟩)
          · rw [Nat.sub_add_cancel h.le]
            exact ⟨Nat.le_refl _, hword⟩
          · exact ⟨by omega, hw⟩
        · rintro ⟨hle, hw⟩
          rcases hword.next hw hle with heq | hlt
          · exact .inl (by omega)
          · exact .inr ⟨hlt, hw⟩

/-- The scan finds the words of a text, as their starts and lengths. -/
theorem mem_words {a n : Nat} : (a, n) ∈ wordsFrom 0 0 text ↔ IsWord text a (a + n) := by
  have hstart : Within text 0 0 := ⟨Nat.zero_le 0, fun k hk hlt => by omega, fun k hk => by omega⟩
  exact (mem_wordsFrom rfl hstart).trans (and_iff_right (Nat.zero_le a))

variable {d : Document} {i : Nat} {l : Line}

/-- A place on a line has the same character in the text; at the line's end there is a break or nothing. -/
theorem char_of_line (hl : d.lines[i]? = some l) {k : Nat} (hk : k ≤ l.chars.length) :
    d.chars[l.start + k]? = l.chars[k]? ∨
      l.chars[k]? = none ∧ ∃ c, d.chars[l.start + k]? = some c ∧ IsBreak c := by
  have hof := d.lineOf_of_line hl (Nat.le_add_right l.start k) (Nat.add_le_add_left hk _)
  have hstop := d.stop_le_length hl
  simp only [Line.stop] at hstop
  rcases Nat.lt_or_ge (l.start + k) d.chars.length with hlt | hge
  · obtain ⟨j, m, hj, -, ⟨-, hget, -⟩ | ⟨hle, c, hc, hbreak⟩⟩ := d.lines_cases hlt
    · cases hof.symm.trans hj
      rw [Nat.add_sub_cancel_left] at hget
      exact .inl hget
    · cases hof.symm.trans hj
      simp only [Line.stop] at hle
      exact .inr ⟨List.getElem?_eq_none (by omega), c, hc, hbreak⟩
  · rw [List.getElem?_eq_none hge, List.getElem?_eq_none (by omega)]
    exact .inl rfl

theorem break_before_line (hl : d.lines[i]? = some l) {k : Nat} (hk : k + 1 = l.start) :
    ∃ c, d.chars[k]? = some c ∧ IsBreak c := by
  have hstop := d.stop_le_length hl
  simp only [Line.stop] at hstop
  have hof := d.lineOf_of_line hl (Nat.le_refl l.start) (Nat.le_add_right ..)
  obtain ⟨j, m, -, hm, ⟨-, -, hnext⟩ | ⟨-, hbreak⟩⟩ := d.lines_cases (a := k) (by omega)
  · rw [hk] at hnext
    cases hof.symm.trans hnext
    omega
  · exact hbreak

theorem identAt_of_break {k : Nat} (h : ∃ c, text[k]? = some c ∧ IsBreak c) :
    identAt text k = false := by
  obtain ⟨c, hc, hbreak⟩ := h
  rw [identAt_of_get hc]
  exact Bool.eq_false_iff.mpr fun hident => not_isBreak_of_isIdentChar hident hbreak

theorem identAt_of_line (hl : d.lines[i]? = some l) {k : Nat} (hk : k ≤ l.chars.length) :
    identAt d.chars (l.start + k) = identAt l.chars k := by
  rcases d.char_of_line hl hk with heq | ⟨hnone, hbreak⟩
  · rw [identAt, heq, identAt]
  · rw [identAt_of_break hbreak, identAt, hnone]
    rfl

/-- The words of a line are those of the text that stand on it. -/
theorem isWord_of_line (hl : d.lines[i]? = some l) {a b : Nat} (ha : a ≤ l.chars.length) :
    IsWord d.chars (l.start + a) (l.start + b) ↔ IsWord l.chars a b := by
  constructor
  · intro h
    have hlt := h.lt
    have hb : b ≤ l.chars.length := by
      apply Nat.le_of_not_lt
      intro hover
      have hend := h.chars (l.start + l.chars.length) (by omega) (by omega)
      rw [d.identAt_of_line hl (Nat.le_refl _), identAt_past (Nat.le_refl _)] at hend
      cases hend
    refine ⟨by omega, fun k hk hk' => ?_, fun k hk => ?_, ?_⟩
    · rw [← d.identAt_of_line hl (by omega)]
      exact h.chars _ (by omega) (by omega)
    · rw [← d.identAt_of_line hl (by omega)]
      exact h.before _ (by omega)
    · rw [← d.identAt_of_line hl hb]
      exact h.after
  · intro h
    have hlt := h.lt
    have hb := h.stop_le_length
    refine ⟨by omega, fun k hk hk' => ?_, fun k hk => ?_, ?_⟩
    · obtain ⟨j, rfl⟩ := Nat.exists_eq_add_of_le (show l.start ≤ k by omega)
      rw [d.identAt_of_line hl (by omega)]
      exact h.chars j (by omega) (by omega)
    · rcases Nat.eq_zero_or_pos a with rfl | hpos
      · exact identAt_of_break (d.break_before_line hl hk)
      · obtain ⟨j, rfl⟩ := Nat.exists_eq_add_of_le (show l.start ≤ k by omega)
        rw [d.identAt_of_line hl (by omega)]
        exact h.before j (by omega)
    · rw [d.identAt_of_line hl hb]
      exact h.after

variable {p : Position} {r : Range}

theorem wordAt?_of_line (hl : d.lines[p.line]? = some l) : d.wordAt? p = some r ↔
    ∃ a b, IsWord l.chars a b ∧ a ≤ p.character ∧ p.character ≤ b ∧
      r = Range.onLine ⟨p.line, a⟩ (b - a) := by
  simp only [wordAt?, hl, Option.bind_eq_bind, Option.bind_some, Option.bind_eq_some_iff,
    Option.some.injEq, Prod.exists]
  constructor
  · rintro ⟨a, n, hfind, rfl⟩
    have hword := mem_words.mp (List.mem_of_find?_eq_some hfind)
    have htouch := List.find?_some hfind
    simp only [Bool.and_eq_true, decide_eq_true_eq] at htouch
    exact ⟨a, a + n, hword, htouch.1, htouch.2, by rw [Nat.add_sub_cancel_left]⟩
  · rintro ⟨a, b, hword, hle, hle', rfl⟩
    obtain ⟨n, rfl⟩ := Nat.exists_eq_add_of_le (Nat.le_of_lt hword.lt)
    have hsome : ((wordsFrom 0 0 l.chars).find? fun w =>
        w.1 ≤ p.character && p.character ≤ w.1 + w.2).isSome :=
      List.find?_isSome.mpr ⟨(a, n), mem_words.mpr hword, by simp [hle, hle']⟩
    obtain ⟨⟨a', n'⟩, hfind⟩ := Option.isSome_iff_exists.mp hsome
    have hword' := mem_words.mp (List.mem_of_find?_eq_some hfind)
    have htouch := List.find?_some hfind
    simp only [Bool.and_eq_true, decide_eq_true_eq] at htouch
    obtain ⟨rfl, hn⟩ := hword.unique hword' hle hle' htouch.1 htouch.2
    obtain rfl := Nat.add_left_cancel hn
    exact ⟨a, n, hfind, by rw [Nat.add_sub_cancel_left]⟩

/-- A word stands on one line. -/
theorem line_of_word {a b : Nat} (h : IsWord d.chars a b) : ∃ (i : Nat) (l : Line) (j k : Nat),
    d.lines[i]? = some l ∧ a = l.start + j ∧ b = l.start + k ∧ k ≤ l.chars.length := by
  obtain ⟨n, rfl⟩ := Nat.exists_eq_add_of_lt h.lt
  obtain ⟨i, l, hl, hla, hlb⟩ := d.line_of_run (a := a) (n := n + 1) (Nat.succ_pos n) fun k hk => by
    have hident := h.chars (a + k) (Nat.le_add_right a k) (by omega)
    obtain ⟨c, hc, hident⟩ := (Option.any_eq_true _ _).mp hident
    exact ⟨c, hc, not_isBreak_of_isIdentChar hident⟩
  obtain ⟨j, rfl⟩ := Nat.exists_eq_add_of_le hla
  simp only [Line.stop] at hlb
  exact ⟨i, l, j, j + (n + 1), hl, rfl, by omega, by omega⟩

/-- The word at a position is the one of the text that the position touches. -/
theorem wordAt?_eq_some : d.wordAt? p = some r ↔ ∃ a b, IsWord d.chars a b ∧
    r.start = d.positionAt a ∧ r.stop = d.positionAt b ∧ r.start ≤ p ∧ p ≤ r.stop := by
  constructor
  · intro h
    obtain ⟨l, hl, -⟩ := Option.bind_eq_some_iff.mp h
    obtain ⟨a, b, hword, hle, hle', rfl⟩ := (wordAt?_of_line hl).mp h
    have hlt := hword.lt
    have hb := hword.stop_le_length
    refine ⟨l.start + a, l.start + b, (isWord_of_line hl (by omega)).mpr hword, ?_, ?_, ?_, ?_⟩
    · rw [d.positionAt_of_line hl (by omega)]
      rfl
    · rw [d.positionAt_of_line hl hb, Range.onLine]
      simp only [Position.mk.injEq, true_and]
      omega
    · exact Position.le_iff.mpr (.inr ⟨rfl, hle⟩)
    · exact Position.le_iff.mpr (.inr ⟨rfl, by simp only [Range.onLine]; omega⟩)
  · rintro ⟨a, b, hword, hstart, hstop, hle, hle'⟩
    have hlt := hword.lt
    obtain ⟨i, l, j, k, hl, rfl, rfl, hk⟩ := line_of_word hword
    rw [d.positionAt_of_line hl (by omega)] at hstart
    rw [d.positionAt_of_line hl hk] at hstop
    rw [hstart, Position.le_iff] at hle
    rw [hstop, Position.le_iff] at hle'
    simp only at hle hle'
    obtain rfl : i = p.line := by omega
    rw [wordAt?_of_line hl]
    refine ⟨j, k, (isWord_of_line hl (by omega)).mp hword, by omega, by omega, Range.ext hstart ?_⟩
    rw [hstop, Range.onLine]
    simp only [Position.mk.injEq, true_and]
    omega

end Document

end Callees

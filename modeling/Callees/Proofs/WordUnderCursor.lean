import Callees.Proofs.Words

namespace Callees

namespace Text

variable {line : List Char} {x : Nat}

/-- Going back from an identifier character, a run begins somewhere. -/
theorem run_start (h : identAt line x = true) : ∃ a ≤ x,
    (∀ k, a ≤ k → k ≤ x → identAt line k = true) ∧ ∀ k, k + 1 = a → identAt line k = false := by
  induction x with
  | zero =>
    refine ⟨0, Nat.le_refl 0, ?_, by simp⟩
    intro k _ hk
    rwa [Nat.le_zero.mp hk]
  | succ x ih =>
    cases hx : identAt line x with
    | false =>
      refine ⟨x + 1, Nat.le_refl _, ?_, ?_⟩
      · intro k hk hk'
        rwa [Nat.le_antisymm hk' hk]
      · intro k hk
        rwa [Nat.succ.inj hk]
    | true =>
      obtain ⟨a, ha, hrun, hbefore⟩ := ih hx
      refine ⟨a, Nat.le_succ_of_le ha, ?_, hbefore⟩
      intro k hk hk'
      rcases Nat.lt_or_eq_of_le hk' with hlt | rfl
      · exact hrun k hk (Nat.le_of_lt_succ hlt)
      · exact h

/-- Going on from an identifier character, the run ends somewhere, at the end of the line at the latest. -/
theorem run_stop {line : List Char} {x : Nat} (h : identAt line x = true) : ∃ b, x < b ∧
    (∀ k, x ≤ k → k < b → identAt line k = true) ∧ identAt line b = false := by
  cases hnext : identAt line (x + 1) with
  | false =>
    refine ⟨x + 1, Nat.lt_succ_self x, ?_, hnext⟩
    intro k hk hk'
    rwa [Nat.le_antisymm (Nat.le_of_lt_succ hk') hk]
  | true =>
    have hlt := lt_of_identAt hnext
    obtain ⟨b, hb, hrun, hafter⟩ := run_stop hnext
    refine ⟨b, Nat.lt_of_succ_lt hb, ?_, hafter⟩
    intro k hk hk'
    rcases Nat.eq_or_lt_of_le hk with rfl | hlt
    · exact h
    · exact hrun k hlt hk'
termination_by line.length - x

/-- Every identifier character belongs to a word. -/
theorem exists_word (h : identAt line x = true) : ∃ a b, IsWord line a b ∧ a ≤ x ∧ x < b := by
  obtain ⟨a, ha, hback, hbefore⟩ := run_start h
  obtain ⟨b, hb, hon, hafter⟩ := run_stop h
  refine ⟨a, b, ⟨Nat.lt_of_le_of_lt ha hb, ?_, hbefore, hafter⟩, ha, hb⟩
  intro k hk hk'
  rcases Nat.le_total k x with hle | hle
  · exact hback k hk hle
  · exact hon k hle hk'

/-- An identifier character stands at a column or right before it. -/
def Touched (line : List Char) (x : Nat) : Prop :=
  identAt line x = true ∨ ∃ k, k + 1 = x ∧ identAt line k = true

theorem exists_word_iff_touched :
    (∃ a b, IsWord line a b ∧ a ≤ x ∧ x ≤ b) ↔ Touched line x := by
  constructor
  · rintro ⟨a, b, hword, ha, hb⟩
    rcases Nat.lt_or_eq_of_le hb with hlt | rfl
    · exact .inl (hword.chars x ha hlt)
    · -- the cursor is behind the last character of the word
      obtain ⟨k, rfl⟩ := Nat.exists_eq_add_of_lt hword.lt
      exact .inr ⟨a + k, rfl, hword.chars _ (Nat.le_add_right ..) (Nat.lt_succ_self _)⟩
  · rintro (h | ⟨k, rfl, h⟩)
    · obtain ⟨a, b, hword, ha, hb⟩ := exists_word h
      exact ⟨a, b, hword, ha, Nat.le_of_lt hb⟩
    · obtain ⟨a, b, hword, ha, hb⟩ := exists_word h
      exact ⟨a, b, hword, Nat.le_succ_of_le ha, hb⟩

theorem not_touched_past (h : line.length < x) : ¬ Touched line x := by
  rintro (hident | ⟨k, rfl, hident⟩)
  · have := lt_of_identAt hident
    omega
  · have := lt_of_identAt hident
    omega

end Text

namespace Document

open Text

variable {d : Document} {p : Position}

/-- A span on the line of a position that is a word there and has the position between its ends or at
one of them. -/
structure WordAround (d : Document) (p : Position) (line : List Char) (r : Range) : Prop where
  text : d.lineTexts[p.line]? = some line
  start_line : r.start.line = p.line
  stop_line : r.stop.line = p.line
  word : IsWord line r.start.character r.stop.character
  start_le : r.start.character ≤ p.character
  le_stop : p.character ≤ r.stop.character

theorem WordAround.unique {line line' : List Char} {r r' : Range} (h : WordAround d p line r)
    (h' : WordAround d p line' r') : r = r' := by
  cases h.text.symm.trans h'.text
  obtain ⟨hstart, hstop⟩ := h.word.unique h'.word h.start_le h.le_stop h'.start_le h'.le_stop
  have hlines := And.intro (h.start_line.trans h'.start_line.symm) (h.stop_line.trans h'.stop_line.symm)
  obtain ⟨⟨_, _⟩, ⟨_, _⟩, _⟩ := r
  obtain ⟨⟨_, _⟩, ⟨_, _⟩, _⟩ := r'
  simp only at hstart hstop hlines
  obtain ⟨rfl, rfl⟩ := hlines
  subst hstart hstop
  rfl

theorem lineTexts_get {i : Nat} {line : List Char} :
    d.lineTexts[i]? = some line ↔ ∃ l : Line, d.lines[i]? = some l ∧ l.chars = line := by
  rw [lineTexts, List.getElem?_map, Option.map_eq_some_iff]

/-- What is found at a position is the word around it. -/
theorem wordAt?_around {r : Range} : d.wordAt? p = some r ↔ ∃ line, WordAround d p line r := by
  constructor
  · intro h
    obtain ⟨l, hl, -⟩ := Option.bind_eq_some_iff.mp h
    obtain ⟨a, b, hword, ha, hb, rfl⟩ := (wordAt?_of_line hl).mp h
    have hstop : a + (b - a) = b := Nat.add_sub_cancel' (Nat.le_of_lt hword.lt)
    refine ⟨l.chars, lineTexts_get.mpr ⟨l, hl, rfl⟩, rfl, rfl, ?_, ha, ?_⟩
    · change IsWord l.chars a (a + (b - a))
      rwa [hstop]
    · change p.character ≤ a + (b - a)
      rwa [hstop]
  · rintro ⟨line, h⟩
    obtain ⟨l, hl, rfl⟩ := lineTexts_get.mp h.text
    refine (wordAt?_of_line hl).mpr ⟨_, _, h.word, h.start_le, h.le_stop, Range.ext ?_ ?_⟩
    · rw [← h.start_line]
      rfl
    · change r.stop = ⟨p.line, r.start.character + (r.stop.character - r.start.character)⟩
      rw [Nat.add_sub_cancel' (Nat.le_of_lt h.word.lt), ← h.stop_line]

theorem wordAt?_isSome {line : List Char} (h : d.lineTexts[p.line]? = some line) :
    (d.wordAt? p).isSome ↔ Touched line p.character := by
  obtain ⟨l, hl, rfl⟩ := lineTexts_get.mp h
  rw [← exists_word_iff_touched, Option.isSome_iff_exists]
  simp only [wordAt?_of_line hl]
  constructor
  · rintro ⟨r, a, b, hword, ha, hb, -⟩
    exact ⟨a, b, hword, ha, hb⟩
  · rintro ⟨a, b, hword, ha, hb⟩
    exact ⟨_, a, b, hword, ha, hb, rfl⟩

/-- The word at a cursor is the one word that the cursor touches. None is found where there is no such
line, or where neither the character at the cursor nor the one before it belongs to a word, so none
behind the end of a line. Otherwise what is found is a longest run on the line of the cursor, with the
cursor in its closed span, and no other span is one. -/
theorem word_at_cursor (d : Document) (p : Position) :
    (d.wordAt? p = none ↔ d.lineCount ≤ p.line ∨
      ∃ line, d.lineTexts[p.line]? = some line ∧ ¬ Touched line p.character) ∧
    (∀ line, d.lineTexts[p.line]? = some line → line.length < p.character → d.wordAt? p = none) ∧
    (∀ r, d.wordAt? p = some r ↔ ∃ line, WordAround d p line r) ∧
    ∀ r r' line line', WordAround d p line r → WordAround d p line' r' → r = r' := by
  have hnone {line : List Char} (h : d.lineTexts[p.line]? = some line) :
      d.wordAt? p = none ↔ ¬ Touched line p.character := by
    rw [← wordAt?_isSome h, Option.not_isSome_iff_eq_none]
  refine ⟨?_, ?_, fun r => wordAt?_around, fun r r' line line' h h' => h.unique h'⟩
  · cases hline : d.lineTexts[p.line]? with
    | none =>
      have hpast : d.lineCount ≤ p.line := by
        rw [List.getElem?_eq_none_iff, lineTexts, List.length_map] at hline
        exact hline
      have hget : d.lines[p.line]? = none := List.getElem?_eq_none hpast
      exact iff_of_true (by rw [wordAt?, hget]; rfl) (.inl hpast)
    | some line =>
      have hlt : p.line < d.lineCount := by
        have hlt := (List.getElem?_eq_some_iff.mp hline).1
        rwa [lineTexts, List.length_map] at hlt
      rw [hnone hline]
      constructor
      · intro h
        exact .inr ⟨line, rfl, h⟩
      · rintro (hle | ⟨line', heq, h⟩)
        · omega
        · cases heq
          exact h
  · intro line hline hlt
    exact (hnone hline).mpr (not_touched_past hlt)

/-- Two words on a line, with a character between them that belongs to none. -/
def twoWords : Document := ⟨"file:///w/a.js", "\nab+c1 ", none, 0⟩

theorem word_at_cursor_edges :
    twoWords.lineTexts[1]? = some ['a', 'b', '+', 'c', '1', ' '] ∧
    twoWords.wordAt? ⟨1, 2⟩ = some ⟨⟨1, 0⟩, ⟨1, 2⟩, by decide⟩ ∧
    twoWords.wordAt? ⟨1, 3⟩ = some ⟨⟨1, 3⟩, ⟨1, 5⟩, by decide⟩ ∧
    twoWords.wordAt? ⟨1, 7⟩ = none ∧ twoWords.wordAt? ⟨2, 0⟩ = none ∧
    ∀ r line, WordAround twoWords ⟨1, 2⟩ line r → r = ⟨⟨1, 0⟩, ⟨1, 2⟩, by decide⟩ := by
  have hline : twoWords.lineTexts[1]? = some ['a', 'b', '+', 'c', '1', ' '] := by decide +kernel
  have hword : twoWords.wordAt? ⟨1, 2⟩ = some ⟨⟨1, 0⟩, ⟨1, 2⟩, by decide⟩ := by decide +kernel
  obtain ⟨-, hpast, hfound, hone⟩ := word_at_cursor twoWords ⟨1, 2⟩
  refine ⟨hline, hword, by decide +kernel,
    (word_at_cursor twoWords ⟨1, 7⟩).2.1 _ hline (by decide),
    (word_at_cursor twoWords ⟨2, 0⟩).1.mpr (.inl (by decide +kernel)), ?_⟩
  intro r line h
  obtain ⟨line', h'⟩ := (hfound _).mp hword
  exact hone _ _ _ _ h h'

end Document

end Callees

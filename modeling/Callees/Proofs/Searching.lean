import Callees.Proofs.Matching

namespace Callees.Pattern

variable {α : Type}

theorem Reads.length {p : Pattern} {s t : Cursor} (h : p.Reads s t) :
    t.offset + t.rest.length = s.offset + s.rest.length := by
  induction h with
  | one rest =>
    simp only [Cursor.step, rest, List.length_cons]
    omega
  | next _ _ ihp ihq => exact ihq.trans ihp
  | left _ _ ih | right _ _ ih | named _ ih => exact ih
  | turn _ _ _ ihp ihq => exact ihq.trans ihp
  | _ => rfl

/-- The number of turns that a repetition is given is enough, since each takes a character. -/
theorem runMany_isSome {p : Pattern} {s t : Cursor} {k : Cursor → Option α} {n : Nat}
    (hp : ∀ (s t : Cursor) (k : Cursor → Option α), p.Reads s t → (k t).isSome →
      (p.run s k).isSome)
    (h : (many p).Reads s t) (hn : s.rest.length ≤ n) (hk : (k t).isSome) :
    (runMany p.run n s k).isSome := by
  generalize hm : many p = m at h
  induction h generalizing n with
  | stop q s =>
    cases n with
    | zero => exact hk
    | succ n =>
      rw [runMany]
      split
      · rfl
      · exact hk
  | @turn q s t u body moved more _ ih =>
    cases hm
    have hlen := body.length
    cases n with
    | zero => omega
    | succ n =>
      have hturn := hp s t (fun t => if s.offset < t.offset then runMany p.run n t k else none) body
        (by
          rw [if_pos moved]
          exact ih (by omega) hk rfl)
      rw [runMany]
      split
      · rfl
      · next hnone =>
        rw [hnone] at hturn
        cases hturn
  | _ => cases hm

/-- Backtracking leaves out no way to match. -/
theorem run_isSome {p : Pattern} {s t : Cursor} {k : Cursor → Option α} (h : p.Reads s t)
    (hk : (k t).isSome) : (p.run s k).isSome := by
  induction p generalizing s t k with
  | one accepts =>
    cases h with
    | one rest hc =>
      simp only [run, rest, hc, ↓reduceIte]
      exact hk
  | nothing =>
    cases h
    exact hk
  | next p q ihp ihq =>
    cases h with
    | next first second => exact ihp first (ihq second hk)
  | either p q ihp ihq =>
    rw [run]
    split
    · rfl
    · next hnone =>
      cases h with
      | left _ first =>
        have hp := ihp first hk
        rw [hnone] at hp
        cases hp
      | right _ second => exact ihq second hk
  | many p ih => exact runMany_isSome (fun _ _ _ => ih) h (Nat.le_refl _) hk
  | named p ih =>
    cases h with
    | named body => exact ih body hk
  | wordEdge =>
    cases h with
    | wordEdge edge =>
      simp only [run, edge, Bool.false_eq_true, ↓reduceIte]
      exact hk
  | atStart =>
    cases h with
    | atStart edge =>
      simp only [run, edge, Option.isNone_none, ↓reduceIte]
      exact hk
  | atEnd =>
    cases h with
    | atEnd edge =>
      simp only [run, edge, List.isEmpty_nil, ↓reduceIte]
      exact hk
  | atLastBreak =>
    cases h with
    | atLastBreak edge =>
      simp only [run, edge, ↓reduceIte]
      exact hk

/-- The match that starts at an offset of a text, if there is one. -/
def matchIn (p : Pattern) (text : List Char) (o : Nat) : Option Match :=
  p.matchAt (text.take o).getLast? o (text.drop o)

/-- The cursor at an offset of a text. -/
def Cursor.at_ (text : List Char) (o : Nat) : Cursor :=
  ⟨(text.take o).getLast?, o, text.drop o, none⟩

/-- The text around some characters that are read from a place in it. -/
theorem Cursor.at_split {text u v : List Char} {o : Nat} (ho : o ≤ text.length)
    (h : (at_ text o).rest = u ++ v) : text = (text.take o ++ u) ++ v ∧
      (text.take o ++ u).length = o + u.length ∧
      (text.take o ++ u).getLast? = u.getLast?.or (at_ text o).before := by
  refine ⟨?_, ?_, List.getLast?_append⟩
  · rw [List.append_assoc, ← h, at_, List.take_append_drop]
  · rw [List.length_append, List.length_take, Nat.min_eq_left ho]

variable {p : Pattern} {text : List Char}

theorem matchIn_reads {o : Nat} {m : Match} (h : p.matchIn text o = some m) :
    ∃ t, p.Reads (.at_ text o) t ∧ m = ⟨o, t.offset, t.name⟩ := by
  obtain ⟨t, hr, ht⟩ := run_reads h
  exact ⟨t, hr, (Option.some.inj ht).symm⟩

theorem matchIn_isSome {o : Nat} {t : Cursor} (h : p.Reads (.at_ text o) t) :
    (p.matchIn text o).isSome := run_isSome h rfl

/-- Where a search goes on: the text from the next character, and the one before that. -/
theorem step_over {o : Nat} {c : Char} {cs : List Char} (h : text.drop o = c :: cs) :
    text.drop (o + 1) = cs ∧ some c = (text.take (o + 1)).getLast? ∧ o < text.length := by
  have hc : text[o]? = some c := by
    rw [← List.head?_drop, h]
    rfl
  refine ⟨?_, ?_, (List.getElem?_eq_some_iff.mp hc).1⟩
  · rw [← List.drop_drop, h]
    rfl
  · rw [List.take_add_one, hc, Option.toList_some, List.getLast?_concat]

theorem occurrencesFrom_skipping {o n : Nat} {c : Char} {cs : List Char}
    (hcs : text.drop o = c :: cs) : p.occurrencesFrom (n + 1) (text.take o).getLast? o (c :: cs) =
      p.occurrencesFrom n (text.take (o + 1)).getLast? (o + 1) cs := by
  rw [occurrencesFrom, (step_over hcs).2.1]

theorem occurrencesFrom_match {o : Nat} {c : Char} {cs : List Char} {m : Match}
    (hcs : text.drop o = c :: cs) (hm : p.matchIn text o = some m) :
    p.occurrencesFrom 0 (text.take o).getLast? o (c :: cs) =
      m :: p.occurrencesFrom (m.stop - o - 1) (text.take (o + 1)).getLast? (o + 1) cs := by
  rw [matchIn, hcs] at hm
  rw [occurrencesFrom, hm, (step_over hcs).2.1]

theorem occurrencesFrom_none {o : Nat} {c : Char} {cs : List Char}
    (hcs : text.drop o = c :: cs) (hm : p.matchIn text o = none) :
    p.occurrencesFrom 0 (text.take o).getLast? o (c :: cs) =
      p.occurrencesFrom 0 (text.take (o + 1)).getLast? (o + 1) cs := by
  rw [matchIn, hcs] at hm
  rw [occurrencesFrom, hm, (step_over hcs).2.1]

theorem matchIn_start {o : Nat} {m : Match} (h : p.matchIn text o = some m) : m.start = o := by
  obtain ⟨t, -, rfl⟩ := matchIn_reads h
  rfl

theorem mem_occurrencesFrom {skip o : Nat} {cs : List Char} {m : Match} (hcs : text.drop o = cs)
    (h : m ∈ p.occurrencesFrom skip (text.take o).getLast? o cs) :
    p.matchIn text m.start = some m ∧ o + skip ≤ m.start ∧ m.start < text.length := by
  induction cs generalizing skip o with
  | nil => simp [occurrencesFrom] at h
  | cons c cs ih =>
    obtain ⟨hnext, -, hlt⟩ := step_over hcs
    cases skip with
    | succ n =>
      rw [occurrencesFrom_skipping hcs] at h
      obtain ⟨hm, hle, hlt'⟩ := ih hnext h
      exact ⟨hm, by omega, hlt'⟩
    | zero =>
      have hlater {n : Nat} (h : m ∈ p.occurrencesFrom n (text.take (o + 1)).getLast? (o + 1) cs) :
          p.matchIn text m.start = some m ∧ o + 0 ≤ m.start ∧ m.start < text.length := by
        obtain ⟨hm, hle, hlt'⟩ := ih hnext h
        exact ⟨hm, by omega, hlt'⟩
      cases hm : p.matchIn text o with
      | none => exact hlater (occurrencesFrom_none hcs hm ▸ h)
      | some first =>
        rw [occurrencesFrom_match hcs hm] at h
        rcases List.mem_cons.mp h with rfl | h
        · rw [matchIn_start hm]
          exact ⟨hm, Nat.le_refl _, hlt⟩
        · exact hlater h

theorem occurrencesFrom_apart {skip o : Nat} {cs : List Char} (hcs : text.drop o = cs) :
    (p.occurrencesFrom skip (text.take o).getLast? o cs).Pairwise fun m m' =>
      m.start < m'.start ∧ m.stop ≤ m'.start := by
  induction cs generalizing skip o with
  | nil => exact .nil
  | cons c cs ih =>
    obtain ⟨hnext, -, -⟩ := step_over hcs
    cases skip with
    | succ n =>
      rw [occurrencesFrom_skipping hcs]
      exact ih hnext
    | zero =>
      cases hm : p.matchIn text o with
      | none =>
        rw [occurrencesFrom_none hcs hm]
        exact ih hnext
      | some first =>
        have hstart := matchIn_start hm
        rw [occurrencesFrom_match hcs hm]
        refine List.pairwise_cons.mpr ⟨fun m hmem => ?_, ih hnext⟩
        obtain ⟨-, hle, -⟩ := mem_occurrencesFrom hnext hmem
        omega

theorem occurrencesFrom_cover {skip o a : Nat} {cs : List Char} (hcs : text.drop o = cs)
    (ha : o + skip ≤ a) (hlt : a < text.length) (hsome : (p.matchIn text a).isSome) :
    ∃ m ∈ p.occurrencesFrom skip (text.take o).getLast? o cs,
      m.start ≤ a ∧ (m.start = a ∨ a < m.stop) := by
  induction cs generalizing skip o with
  | nil =>
    have := List.drop_eq_nil_iff.mp hcs
    omega
  | cons c cs ih =>
    obtain ⟨hnext, -, -⟩ := step_over hcs
    cases skip with
    | succ n =>
      rw [occurrencesFrom_skipping hcs]
      exact ih hnext (by omega)
    | zero =>
      cases hm : p.matchIn text o with
      | none =>
        have hne : o ≠ a := by
          rintro rfl
          rw [hm] at hsome
          cases hsome
        rw [occurrencesFrom_none hcs hm]
        exact ih hnext (by omega)
      | some first =>
        have hstart := matchIn_start hm
        rw [occurrencesFrom_match hcs hm]
        by_cases hin : a = o ∨ a < first.stop
        · exact ⟨first, List.mem_cons_self, by omega, by omega⟩
        · obtain ⟨m, hmem, hcover⟩ :=
            ih hnext (show o + 1 + (first.stop - o - 1) ≤ a by omega)
          exact ⟨m, List.mem_cons_of_mem _ hmem, hcover⟩

theorem mem_occurrences {m : Match} (h : m ∈ p.occurrences text) :
    p.matchIn text m.start = some m ∧ m.start < text.length := by
  obtain ⟨hm, -, hlt⟩ := mem_occurrencesFrom (o := 0) rfl h
  exact ⟨hm, hlt⟩

theorem occurrences_apart (p : Pattern) (text : List Char) :
    (p.occurrences text).Pairwise fun m m' => m.start < m'.start ∧ m.stop ≤ m'.start :=
  occurrencesFrom_apart (o := 0) rfl

theorem occurrences_cover {a : Nat} (hlt : a < text.length) (hm : (p.matchIn text a).isSome) :
    ∃ m ∈ p.occurrences text, m.start ≤ a ∧ (m.start = a ∨ a < m.stop) :=
  occurrencesFrom_cover (o := 0) rfl (Nat.zero_le a) hlt hm

theorem searchFrom_here {o : Nat} {cs : List Char} {m : Match} (hcs : text.drop o = cs)
    (hm : p.matchIn text o = some m) : p.searchFrom (text.take o).getLast? o cs = some m := by
  rw [matchIn, hcs] at hm
  cases cs with
  | nil => exact hm
  | cons c cs => rw [searchFrom, hm]

theorem searchFrom_later {o : Nat} {c : Char} {cs : List Char} (hcs : text.drop o = c :: cs)
    (hm : p.matchIn text o = none) : p.searchFrom (text.take o).getLast? o (c :: cs) =
      p.searchFrom (text.take (o + 1)).getLast? (o + 1) cs := by
  rw [matchIn, hcs] at hm
  rw [searchFrom, hm, (step_over hcs).2.1]

theorem searchFrom_cases {o : Nat} {cs : List Char} (hcs : text.drop o = cs) (ho : o ≤ text.length) :
    (p.searchFrom (text.take o).getLast? o cs = none ∧
      ∀ i, o ≤ i → i ≤ text.length → p.matchIn text i = none) ∨
    ∃ m, p.searchFrom (text.take o).getLast? o cs = some m ∧ p.matchIn text m.start = some m ∧
      m.start ≤ text.length ∧ ∀ i, o ≤ i → i < m.start → p.matchIn text i = none := by
  induction cs generalizing o with
  | nil =>
    have hend := List.drop_eq_nil_iff.mp hcs
    cases hm : p.matchIn text o with
    | some m =>
      have hstart := matchIn_start hm
      exact .inr ⟨m, searchFrom_here hcs hm, hstart ▸ hm, by omega, fun i hi hi' => by omega⟩
    | none =>
      refine .inl ⟨?_, fun i hi hi' => ?_⟩
      · rw [matchIn, hcs] at hm
        exact hm
      · rw [show i = o by omega, hm]
  | cons c cs ih =>
    obtain ⟨hnext, -, hlt⟩ := step_over hcs
    cases hm : p.matchIn text o with
    | some m =>
      have hstart := matchIn_start hm
      exact .inr ⟨m, searchFrom_here hcs hm, hstart ▸ hm, by omega, fun i hi hi' => by omega⟩
    | none =>
      have hfrom {i : Nat} (hi : o ≤ i) (h : o + 1 ≤ i → p.matchIn text i = none) :
          p.matchIn text i = none := by
        rcases Nat.eq_or_lt_of_le hi with rfl | hlt
        · exact hm
        · exact h hlt
      rw [searchFrom_later hcs hm]
      rcases ih hnext hlt with ⟨hnone, hall⟩ | ⟨m, hsome, hfound, hle, hall⟩
      · exact .inl ⟨hnone, fun i hi hi' => hfrom hi fun hi => hall i hi hi'⟩
      · exact .inr ⟨m, hsome, hfound, hle, fun i hi hi' => hfrom hi fun hi => hall i hi hi'⟩

/-- A search finds nothing where the pattern matches nowhere, and else the first place where it does. -/
theorem search_cases (p : Pattern) (text : List Char) :
    (p.search text = none ∧ ∀ i ≤ text.length, p.matchIn text i = none) ∨
    ∃ m, p.search text = some m ∧ p.matchIn text m.start = some m ∧ m.start ≤ text.length ∧
      ∀ i < m.start, p.matchIn text i = none := by
  rcases searchFrom_cases (p := p) (o := 0) rfl (Nat.zero_le text.length) with ⟨hnone, hall⟩ | hsome
  · exact .inl ⟨hnone, fun i => hall i (Nat.zero_le i)⟩
  · obtain ⟨m, hm, hfound, hle, hall⟩ := hsome
    exact .inr ⟨m, hm, hfound, hle, fun i => hall i (Nat.zero_le i)⟩

theorem search_eq_some {m : Match} (h : p.search text = some m) :
    p.matchIn text m.start = some m ∧ m.start ≤ text.length := by
  rcases search_cases p text with ⟨hnone, -⟩ | ⟨m', hm, hfound, hle, -⟩
  · cases hnone.symm.trans h
  · cases hm.symm.trans h
    exact ⟨hfound, hle⟩

/-- A place where the pattern matches is at or behind the one that a search finds. -/
theorem search_of_reads {i : Nat} {t : Cursor} (hi : i ≤ text.length) (h : p.Reads (.at_ text i) t) :
    ∃ m, p.search text = some m ∧ m.start ≤ i := by
  have hsome := matchIn_isSome h
  rcases search_cases p text with ⟨-, hall⟩ | ⟨m, hm, -, -, hall⟩
  · rw [hall i hi] at hsome
    cases hsome
  · refine ⟨m, hm, Nat.le_of_not_lt fun hlt => ?_⟩
    rw [hall i hlt] at hsome
    cases hsome

end Callees.Pattern

import Callees.Pattern

namespace Callees.Pattern

/-- A way for a pattern to get from one cursor to another. -/
inductive Reads : Pattern → Cursor → Cursor → Prop
  | one {accepts : Char → Bool} {s : Cursor} {c : Char} {cs : List Char} (rest : s.rest = c :: cs)
      (hc : accepts c = true) : Reads (.one accepts) s (s.step c cs)
  | nothing (s : Cursor) : Reads .nothing s s
  | next {p q : Pattern} {s t u : Cursor} (first : Reads p s t) (second : Reads q t u) :
      Reads (.next p q) s u
  | left {p : Pattern} {s t : Cursor} (q : Pattern) (first : Reads p s t) : Reads (.either p q) s t
  | right {q : Pattern} {s t : Cursor} (p : Pattern) (second : Reads q s t) :
      Reads (.either p q) s t
  | stop (p : Pattern) (s : Cursor) : Reads (.many p) s s
  | turn {p : Pattern} {s t u : Cursor} (body : Reads p s t) (moved : s.offset < t.offset)
      (more : Reads (.many p) t u) : Reads (.many p) s u
  | named {p : Pattern} {s t : Cursor} (body : Reads p s t) :
      Reads (.named p) s ⟨t.before, t.offset, t.rest, some (s.offset, t.offset)⟩
  | wordEdge {s : Cursor} (edge : s.before.any Text.isIdentChar = false) : Reads .wordEdge s s
  | atStart {s : Cursor} (edge : s.before = none) : Reads .atStart s s
  | atEnd {s : Cursor} (edge : s.rest = []) : Reads .atEnd s s
  | atLastBreak {s : Cursor} (edge : s.rest = [] ∨ s.rest = ['\n']) : Reads .atLastBreak s s

variable {α : Type}

theorem runMany_reads {p : Pattern}
    (hp : ∀ (s : Cursor) (k : Cursor → Option α) (a : α), p.run s k = some a →
      ∃ t, p.Reads s t ∧ k t = some a)
    {n : Nat} {s : Cursor} {k : Cursor → Option α} {a : α} (h : runMany p.run n s k = some a) :
    ∃ t, (many p).Reads s t ∧ k t = some a := by
  induction n generalizing s with
  | zero => exact ⟨s, .stop p s, h⟩
  | succ n ih =>
    rw [runMany] at h
    split at h
    · next b hb =>
      obtain ⟨t, hst, ht⟩ := hp s _ b hb
      cases h
      split at ht
      · next hlt =>
        obtain ⟨u, htu, hu⟩ := ih ht
        exact ⟨u, .turn hst hlt htu, hu⟩
      · cases ht
    · exact ⟨s, .stop p s, h⟩

/-- Whatever a run answers, it got there by a way of the pattern. -/
theorem run_reads {p : Pattern} {s : Cursor} {k : Cursor → Option α} {a : α}
    (h : p.run s k = some a) : ∃ t, p.Reads s t ∧ k t = some a := by
  induction p generalizing s k a with
  | one accepts =>
    rw [run] at h
    split at h
    · cases h
    · next c cs hrest =>
      split at h
      · next hc => exact ⟨_, .one hrest hc, h⟩
      · cases h
  | nothing => exact ⟨s, .nothing s, h⟩
  | next p q ihp ihq =>
    obtain ⟨t, hst, ht⟩ := ihp h
    obtain ⟨u, htu, hu⟩ := ihq ht
    exact ⟨u, .next hst htu, hu⟩
  | either p q ihp ihq =>
    rw [run] at h
    split at h
    · next b hb =>
      cases h
      obtain ⟨t, hst, ht⟩ := ihp hb
      exact ⟨t, .left q hst, ht⟩
    · obtain ⟨t, hst, ht⟩ := ihq h
      exact ⟨t, .right p hst, ht⟩
  | many p ih => exact runMany_reads (fun _ _ _ => ih) h
  | named p ih =>
    obtain ⟨t, hst, ht⟩ := ih h
    exact ⟨_, .named hst, ht⟩
  | wordEdge =>
    rw [run] at h
    split at h
    · cases h
    · next he => exact ⟨s, .wordEdge (Bool.eq_false_iff.mpr he), h⟩
  | atStart =>
    rw [run] at h
    split at h
    · next he => exact ⟨s, .atStart (Option.isNone_iff_eq_none.mp he), h⟩
    · cases h
  | atEnd =>
    rw [run] at h
    split at h
    · next he => exact ⟨s, .atEnd (List.isEmpty_iff.mp he), h⟩
    · cases h
  | atLastBreak =>
    rw [run] at h
    split at h
    · next he => exact ⟨s, .atLastBreak he, h⟩
    · cases h

theorem matchAt_reads {p : Pattern} {before : Option Char} {offset : Nat} {rest : List Char}
    {m : Match} (h : p.matchAt before offset rest = some m) :
    m.start = offset ∧ ∃ t, p.Reads ⟨before, offset, rest, none⟩ t := by
  obtain ⟨t, hr, ht⟩ := run_reads h
  cases ht
  exact ⟨rfl, t, hr⟩

theorem searchFrom_reads {p : Pattern} {before : Option Char} {offset : Nat} {cs : List Char}
    {m : Match} (h : p.searchFrom before offset cs = some m) :
    offset ≤ m.start ∧ m.start ≤ offset + cs.length ∧
      ∃ s t, p.Reads s t ∧ s.rest = cs.drop (m.start - offset) := by
  induction cs generalizing before offset with
  | nil =>
    obtain ⟨hm, t, hr⟩ := matchAt_reads h
    exact ⟨Nat.le_of_eq hm.symm, Nat.le_of_eq hm, _, t, hr, by simp⟩
  | cons c cs ih =>
    rw [searchFrom] at h
    split at h
    · next n hn =>
      cases h
      obtain ⟨hm, t, hr⟩ := matchAt_reads hn
      exact ⟨Nat.le_of_eq hm.symm, by omega, _, t, hr, by simp [hm]⟩
    · obtain ⟨hle, hlt, s, t, hr, hs⟩ := ih h
      refine ⟨Nat.le_of_succ_le hle, by simp only [List.length_cons]; omega, s, t, hr, ?_⟩
      rw [hs, show m.start - offset = m.start - (offset + 1) + 1 by omega, List.drop_succ_cons]

/-- A match of a search is a way from where it starts. -/
theorem search_reads {p : Pattern} {text : List Char} {m : Match} (h : p.search text = some m) :
    m.start ≤ text.length ∧ ∃ s t, p.Reads s t ∧ s.rest = text.drop m.start := by
  obtain ⟨-, hle, s, t, hr, hs⟩ := searchFrom_reads h
  exact ⟨by omega, s, t, hr, hs⟩

/-- Whether a pattern matches only up to the end of the text. -/
def endsText : Pattern → Bool
  | next _ q => q.endsText
  | either p q => p.endsText && q.endsText
  | named p => p.endsText
  | atEnd => true
  | _ => false

theorem Reads.ends {p : Pattern} {s t : Cursor} (h : p.Reads s t) (hp : p.endsText = true) :
    t.rest = [] := by
  induction h with
  | next _ _ _ ih => exact ih hp
  | left q _ ih => exact ih (Bool.and_eq_true _ _ ▸ hp).1
  | right p _ ih => exact ih (Bool.and_eq_true _ _ ▸ hp).2
  | named _ ih => exact ih hp
  | atEnd edge => exact edge
  | _ => cases hp

/-- Whether no text that the pattern takes has the character. -/
def avoids (c : Char) : Pattern → Bool
  | one accepts => !accepts c
  | next p q | either p q => p.avoids c && q.avoids c
  | many p | named p => p.avoids c
  | _ => true

theorem Reads.takes {p : Pattern} {s t : Cursor} (h : p.Reads s t) :
    ∃ w, s.rest = w ++ t.rest ∧ ∀ c, p.avoids c = true → c ∉ w := by
  induction h with
  | @one accepts s d cs rest hd =>
    refine ⟨[d], rest, fun c hc => ?_⟩
    rw [List.mem_singleton]
    rintro rfl
    simp [avoids, hd] at hc
  | next _ _ ihp ihq =>
    obtain ⟨u, hu, hpu⟩ := ihp
    obtain ⟨v, hv, hqv⟩ := ihq
    refine ⟨u ++ v, by rw [hu, hv, List.append_assoc], fun c hc => ?_⟩
    obtain ⟨hp, hq⟩ := Bool.and_eq_true _ _ ▸ hc
    rw [List.mem_append, not_or]
    exact ⟨hpu c hp, hqv c hq⟩
  | left q _ ih =>
    obtain ⟨w, hw, hpw⟩ := ih
    exact ⟨w, hw, fun c hc => hpw c (Bool.and_eq_true _ _ ▸ hc).1⟩
  | right p _ ih =>
    obtain ⟨w, hw, hpw⟩ := ih
    exact ⟨w, hw, fun c hc => hpw c (Bool.and_eq_true _ _ ▸ hc).2⟩
  | turn _ _ _ ihp ihq =>
    obtain ⟨u, hu, hpu⟩ := ihp
    obtain ⟨v, hv, hqv⟩ := ihq
    refine ⟨u ++ v, by rw [hu, hv, List.append_assoc], fun c hc => ?_⟩
    rw [List.mem_append, not_or]
    exact ⟨hpu c hc, hqv c hc⟩
  | named _ ih => exact ih
  | _ => exact ⟨[], rfl, fun _ _ => List.not_mem_nil⟩

end Callees.Pattern

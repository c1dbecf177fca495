import Callees.Proofs.Matching

namespace Callees.Pattern

/-- The cursor after the characters `w`, with `rest` still to come. -/
def Cursor.past (s : Cursor) (w rest : List Char) : Cursor :=
  ⟨w.getLast?.or s.before, s.offset + w.length, rest, s.name⟩

theorem Cursor.past_past (s : Cursor) (u v rest rest' : List Char) :
    (s.past u rest).past v rest' = s.past (u ++ v) rest' := by
  simp only [past, List.getLast?_append, Option.or_assoc, List.length_append, Nat.add_assoc]

/-- The pattern matches the texts of `L` and no others, wherever they stand. -/
def Spells (p : Pattern) (L : List Char → Prop) : Prop :=
  ∀ s t, p.Reads s t ↔ ∃ w, L w ∧ s.rest = w ++ t.rest ∧ t = s.past w t.rest

variable {p q : Pattern} {L M : List Char → Prop}

theorem Spells.congr (h : p.Spells L) (hL : ∀ w, L w ↔ M w) : p.Spells M := by
  intro s t
  simp only [h s t, hL]

theorem spells_one (accepts : Char → Bool) :
    (one accepts).Spells fun w => ∃ c, accepts c = true ∧ w = [c] := by
  intro s t
  constructor
  · intro h
    cases h with
    | one rest hc => exact ⟨_, ⟨_, hc, rfl⟩, rest, rfl⟩
  · rintro ⟨_, ⟨c, hc, rfl⟩, hs, ht⟩
    rw [ht]
    exact .one hs hc

theorem spells_char (c : Char) : (char c).Spells (· = [c]) := by
  apply (spells_one _).congr
  simp

theorem Spells.next (hp : p.Spells L) (hq : q.Spells M) :
    (next p q).Spells fun w => ∃ u v, L u ∧ M v ∧ w = u ++ v := by
  intro s t
  constructor
  · intro h
    cases h with
    | @next _ _ _ r _ first second =>
      obtain ⟨u, hu, hs, hr⟩ := (hp s r).mp first
      obtain ⟨v, hv, hr', ht⟩ := (hq r t).mp second
      refine ⟨u ++ v, ⟨u, v, hu, hv, rfl⟩, ?_, ?_⟩
      · rw [hs, hr', List.append_assoc]
      · rw [ht, hr, Cursor.past_past]
        rfl
  · rintro ⟨_, ⟨u, v, hu, hv, rfl⟩, hs, ht⟩
    have hfirst : p.Reads s (s.past u (v ++ t.rest)) :=
      (hp s _).mpr ⟨u, hu, by rw [hs, List.append_assoc]; rfl, rfl⟩
    have hsecond : q.Reads (s.past u (v ++ t.rest)) t :=
      (hq _ t).mpr ⟨v, hv, rfl, ht.trans (Cursor.past_past ..).symm⟩
    exact .next hfirst hsecond

theorem spells_nothing : nothing.Spells (· = []) := by
  intro s t
  constructor
  · intro h
    cases h
    exact ⟨[], rfl, rfl, rfl⟩
  · rintro ⟨_, rfl, hs, ht⟩
    rw [ht, ← show s.rest = t.rest from hs]
    exact .nothing s

theorem Spells.either (hp : p.Spells L) (hq : q.Spells M) :
    (either p q).Spells fun w => L w ∨ M w := by
  intro s t
  constructor
  · intro h
    cases h with
    | left _ first =>
      obtain ⟨w, hw, hst⟩ := (hp s t).mp first
      exact ⟨w, .inl hw, hst⟩
    | right _ second =>
      obtain ⟨w, hw, hst⟩ := (hq s t).mp second
      exact ⟨w, .inr hw, hst⟩
  · rintro ⟨w, hw | hw, hst⟩
    · exact .left q ((hp s t).mpr ⟨w, hw, hst⟩)
    · exact .right p ((hq s t).mpr ⟨w, hw, hst⟩)

theorem Spells.optional (hp : p.Spells L) : (optional p).Spells fun w => L w ∨ w = [] :=
  hp.either spells_nothing

theorem spells_text (cs : List Char) : (text cs).Spells (· = cs) := by
  induction cs with
  | nil => exact spells_nothing
  | cons c cs ih =>
    cases cs with
    | nil => exact spells_char c
    | cons c' cs =>
      apply ((spells_char c).next ih).congr
      intro w
      constructor
      · rintro ⟨_, _, rfl, rfl, rfl⟩
        rfl
      · rintro rfl
        exact ⟨[c], c' :: cs, rfl, rfl, rfl⟩

theorem spells_many_one (accepts : Char → Bool) :
    (many (one accepts)).Spells fun w => ∀ c ∈ w, accepts c = true := by
  intro s t
  constructor
  · intro h
    generalize hm : many (one accepts) = m at h
    induction h with
    | stop => exact ⟨[], by simp, rfl, rfl⟩
    | @turn _ s r t body _ _ _ ih =>
      cases hm
      obtain ⟨_, ⟨c, hc, rfl⟩, hs, hr⟩ := (spells_one accepts s r).mp body
      obtain ⟨w, hw, hr', ht⟩ := ih rfl
      refine ⟨c :: w, List.forall_mem_cons.mpr ⟨hc, hw⟩, ?_, ?_⟩
      · rw [hs, hr']
        rfl
      · rw [ht, hr, Cursor.past_past]
        rfl
    | _ => cases hm
  · rintro ⟨w, hw, hs, ht⟩
    induction w generalizing s with
    | nil =>
      rw [ht, ← show s.rest = t.rest from hs]
      exact .stop _ s
    | cons c w ih =>
      obtain ⟨hc, hw⟩ := List.forall_mem_cons.mp hw
      have hstep : (one accepts).Reads s (s.past [c] (w ++ t.rest)) :=
        (spells_one accepts s _).mpr ⟨[c], ⟨c, hc, rfl⟩, hs, rfl⟩
      exact .turn hstep (Nat.lt_succ_self _)
        (ih (s.past [c] (w ++ t.rest)) hw rfl (ht.trans (Cursor.past_past s [c] w _ _).symm))

theorem spells_blanks : blanks.Spells fun w => ∀ c ∈ w, Text.isBlank c = true :=
  spells_many_one Text.isBlank

/-- A name, without regard to what comes right before it. -/
theorem spells_identifier :
    (next (one Text.isIdentStart) (many (one Text.isIdentChar))).Spells
      fun w => Text.isIdentifier w = true := by
  apply ((spells_one _).next (spells_many_one _)).congr
  intro w
  constructor
  · rintro ⟨_, v, ⟨c, hc, rfl⟩, hv, rfl⟩
    exact Bool.and_eq_true_iff.mpr ⟨hc, List.all_eq_true.mpr hv⟩
  · intro hw
    cases w with
    | nil => cases hw
    | cons c v =>
      obtain ⟨hc, hv⟩ := Bool.and_eq_true_iff.mp hw
      exact ⟨[c], v, ⟨c, hc, rfl⟩, List.all_eq_true.mp hv, rfl⟩

end Callees.Pattern

import Callees.Block
import Callees.Document

namespace Callees.Block

/-- Every prefix has at least as many `{` as `}`, and the totals are equal. -/
structure Balanced (w : List Char) : Prop where
  closed : ∀ n, (w.take n).count '}' ≤ (w.take n).count '{'
  total : w.count '{' = w.count '}'

/-- Braces at `s` and `e` that belong together. -/
structure IsBlock (text : List Char) (s e : Nat) : Prop where
  lt : s < e
  opens : text[s]? = some '{'
  closes : text[e]? = some '}'
  inside : Balanced (Document.slice text (s + 1) e)

/-- How many more `{` than `}` there are. -/
def net (w : List Char) : Int := (w.count '{' : Int) - w.count '}'

@[simp] theorem net_nil : net [] = 0 := rfl

@[simp] theorem net_append (u v : List Char) : net (u ++ v) = net u + net v := by
  simp only [net, List.count_append]
  omega

@[simp] theorem net_open : net ['{'] = 1 := rfl

@[simp] theorem net_close : net ['}'] = -1 := rfl

theorem net_eq_zero {w : List Char} (ho : '{' ∉ w) (hc : '}' ∉ w) : net w = 0 := by
  rw [net, List.count_eq_zero.mpr ho, List.count_eq_zero.mpr hc]
  rfl

/-- How deep a text is nested at an offset. -/
def level (text : List Char) (i : Nat) : Int := net (text.take i)

variable {text : List Char}

theorem level_succ (text : List Char) (i : Nat) :
    level text (i + 1) = level text i + net text[i]?.toList := by
  rw [level, List.take_add_one, net_append, level]

theorem level_open {i : Nat} (h : text[i]? = some '{') : level text (i + 1) = level text i + 1 := by
  rw [level_succ, h, Option.toList_some, net_open]

theorem level_close {i : Nat} (h : text[i]? = some '}') : level text (i + 1) = level text i - 1 := by
  rw [level_succ, h, Option.toList_some, net_close]
  rfl

theorem level_other {i : Nat} (ho : text[i]? ≠ some '{') (hc : text[i]? ≠ some '}') :
    level text (i + 1) = level text i := by
  rw [level_succ, net_eq_zero, Int.add_zero]
  · exact fun h => ho (Option.mem_toList.mp h)
  · exact fun h => hc (Option.mem_toList.mp h)

/-- The level rises only over a `{` and falls only over a `}`. -/
theorem level_cases (text : List Char) (i : Nat) :
    (text[i]? = some '{' ∧ level text (i + 1) = level text i + 1) ∨
    (text[i]? = some '}' ∧ level text (i + 1) = level text i - 1) ∨
    (text[i]? ≠ some '{' ∧ text[i]? ≠ some '}' ∧ level text (i + 1) = level text i) := by
  by_cases ho : text[i]? = some '{'
  · exact .inl ⟨ho, level_open ho⟩
  · by_cases hc : text[i]? = some '}'
    · exact .inr (.inl ⟨hc, level_close hc⟩)
    · exact .inr (.inr ⟨ho, hc, level_other ho hc⟩)

/-- Where nothing opens, the level does not rise. -/
theorem level_le_of_no_open {x y : Nat} (hxy : x ≤ y)
    (h : ∀ i, x ≤ i → i < y → text[i]? ≠ some '{') : level text y ≤ level text x := by
  obtain ⟨n, rfl⟩ := Nat.exists_eq_add_of_le hxy
  induction n with
  | zero => exact Int.le_refl _
  | succ n ih =>
    have hle := ih (Nat.le_add_right ..) fun i hi hi' => h i hi (by omega)
    rw [← Nat.add_assoc]
    rcases level_cases text (x + n) with ⟨ho, -⟩ | ⟨-, hl⟩ | ⟨-, -, hl⟩
    · exact absurd ho (h (x + n) (by omega) (by omega))
    · omega
    · omega

/-- Where nothing closes, the level does not fall. -/
theorem le_level_of_no_close {x y : Nat} (hxy : x ≤ y)
    (h : ∀ i, x ≤ i → i < y → text[i]? ≠ some '}') : level text x ≤ level text y := by
  obtain ⟨n, rfl⟩ := Nat.exists_eq_add_of_le hxy
  induction n with
  | zero => exact Int.le_refl _
  | succ n ih =>
    have hle := ih (Nat.le_add_right ..) fun i hi hi' => h i hi (by omega)
    rw [← Nat.add_assoc]
    rcases level_cases text (x + n) with ⟨-, hl⟩ | ⟨hc, -⟩ | ⟨-, -, hl⟩
    · omega
    · exact absurd hc (h (x + n) (by omega) (by omega))
    · omega

theorem take_slice (a b n : Nat) :
    (Document.slice text a b).take n = Document.slice text a (min (a + n) b) := by
  rw [Document.slice, List.take_drop, List.take_take]
  rfl

theorem level_slice (text : List Char) {a b : Nat} (hab : a ≤ b) :
    level text b = level text a + net (Document.slice text a b) := by
  have hsplit : text.take a ++ Document.slice text a b = text.take b := by
    have h := List.take_append_drop a (text.take b)
    rwa [List.take_take, Nat.min_eq_left hab] at h
  rw [level, ← hsplit, net_append, level]

theorem balanced_slice {a b : Nat} (hab : a ≤ b) : Balanced (Document.slice text a b) ↔
    (∀ i, a ≤ i → i ≤ b → level text a ≤ level text i) ∧ level text b = level text a := by
  have hb := level_slice text hab
  simp only [net] at hb
  constructor
  · rintro ⟨hclosed, htotal⟩
    refine ⟨fun i hai hib => ?_, by omega⟩
    have hi := hclosed (i - a)
    rw [take_slice, Nat.add_sub_cancel' hai, Nat.min_eq_left hib] at hi
    have hl := level_slice text hai
    simp only [net] at hl
    omega
  · rintro ⟨hle, htotal⟩
    refine ⟨fun n => ?_, by omega⟩
    have hi := hle (min (a + n) b) (by omega) (by omega)
    have hl := level_slice text (show a ≤ min (a + n) b by omega)
    simp only [net] at hl
    rw [take_slice]
    omega

/-- The first `}` at or after `o` that takes the level below `c`. -/
structure FallsAt (text : List Char) (c : Int) (o e : Nat) : Prop where
  le : o ≤ e
  below : level text (e + 1) < c
  above : ∀ i, o ≤ i → i ≤ e → c ≤ level text i

/-- The last `{` before `o` that lifts the level to `c`. -/
structure RisesAt (text : List Char) (c : Int) (o s : Nat) : Prop where
  lt : s < o
  below : level text s < c
  above : ∀ i, s < i → i ≤ o → c ≤ level text i

theorem FallsAt.closes {c : Int} {o e : Nat} (h : FallsAt text c o e) :
    text[e]? = some '}' ∧ level text (e + 1) = c - 1 := by
  have hlt := h.below
  have hle := h.above e h.le (Nat.le_refl e)
  rcases level_cases text e with ⟨-, hl⟩ | ⟨hc, hl⟩ | ⟨-, -, hl⟩
  · omega
  · exact ⟨hc, by omega⟩
  · omega

theorem RisesAt.opens {c : Int} {o s : Nat} (h : RisesAt text c o s) :
    text[s]? = some '{' ∧ level text s = c - 1 := by
  have hlt := h.below
  have hle := h.above (s + 1) (Nat.lt_succ_self s) h.lt
  rcases level_cases text s with ⟨ho, hl⟩ | ⟨-, hl⟩ | ⟨-, -, hl⟩
  · exact ⟨ho, by omega⟩
  · omega
  · omega

theorem fallsAt_here {c : Int} {o e : Nat} (ho : c ≤ level text o) (hn : level text (o + 1) < c) :
    FallsAt text c o e ↔ o = e := by
  constructor
  · intro h
    rcases Nat.eq_or_lt_of_le h.le with he | he
    · exact he
    · have := h.above (o + 1) (Nat.le_succ o) he
      omega
  · rintro rfl
    refine ⟨Nat.le_refl o, hn, fun i hi hi' => ?_⟩
    rw [Nat.le_antisymm hi' hi]
    exact ho

theorem risesAt_here {c : Int} {o s : Nat} (ho : level text o < c) (hn : c ≤ level text (o + 1)) :
    RisesAt text c (o + 1) s ↔ o = s := by
  constructor
  · intro h
    have hlt := h.lt
    rcases Nat.eq_or_lt_of_le (Nat.le_of_lt_succ hlt) with he | he
    · exact he.symm
    · have := h.above o he (Nat.le_succ o)
      omega
  · rintro rfl
    refine ⟨Nat.lt_succ_self o, ho, fun i hi hi' => ?_⟩
    rw [Nat.le_antisymm hi' hi]
    exact hn

theorem risesAt_earlier {c : Int} {o s : Nat} (ho : c ≤ level text o)
    (hn : c ≤ level text (o + 1)) : RisesAt text c (o + 1) s ↔ RisesAt text c o s := by
  constructor
  · intro h
    have hlt := h.lt
    have hne : s ≠ o := by
      rintro rfl
      have := h.below
      omega
    exact ⟨by omega, h.below, fun i hi hi' => h.above i hi (by omega)⟩
  · intro h
    have hlt := h.lt
    refine ⟨by omega, h.below, fun i hi hi' => ?_⟩
    rcases Nat.eq_or_lt_of_le hi' with rfl | hi'
    · exact hn
    · exact h.above i hi (Nat.le_of_lt_succ hi')

/-- Nothing is found before the level has come down to `c`. -/
theorem fallsAt_past {c : Int} {x y e : Nat} (hxy : x ≤ y)
    (h : ∀ i, x ≤ i → i ≤ y → c ≤ level text i) : FallsAt text c x e ↔ FallsAt text c y e := by
  constructor
  · intro hf
    refine ⟨?_, hf.below, fun i hi => hf.above i (Nat.le_trans hxy hi)⟩
    apply Nat.le_of_not_lt
    intro hlt
    have := hf.below
    have := h (e + 1) (Nat.le_succ_of_le hf.le) hlt
    omega
  · intro hf
    refine ⟨Nat.le_trans hxy hf.le, hf.below, fun i hi hi' => ?_⟩
    rcases Nat.le_total i y with hiy | hiy
    · exact h i hi hiy
    · exact hf.above i hiy hi'

theorem fallsAt_later {c : Int} {o e : Nat} (ho : c ≤ level text o) (hn : c ≤ level text (o + 1)) :
    FallsAt text c o e ↔ FallsAt text c (o + 1) e := by
  apply fallsAt_past (Nat.le_succ o)
  intro i hi hi'
  obtain rfl | rfl : i = o ∨ i = o + 1 := by omega
  · exact ho
  · exact hn

theorem FallsAt.unique {c : Int} {o e e' : Nat} (h : FallsAt text c o e) (h' : FallsAt text c o e') :
    e = e' := by
  have hb := h.below
  have hb' := h'.below
  have hle := h.le
  have hle' := h'.le
  rcases Nat.lt_trichotomy e e' with hlt | heq | hlt
  · have := h'.above (e + 1) (by omega) hlt
    omega
  · exact heq
  · have := h.above (e' + 1) (by omega) hlt
    omega

theorem drop_cons {o : Nat} {a : Char} {cs : List Char} (h : text.drop o = a :: cs) :
    text[o]? = some a ∧ text.drop (o + 1) = cs := by
  constructor
  · rw [← List.head?_drop, h]
    rfl
  · rw [← List.drop_drop, h]
    rfl

/-- The forward scan counts how far the level is above `c`. -/
theorem closeAfter_eq_some {c : Int} {depth o e : Nat} {cs : List Char} (hcs : text.drop o = cs)
    (hd : level text o = c + depth) : closeAfter depth o cs = some e ↔ FallsAt text c o e := by
  induction cs generalizing depth o with
  | nil =>
    have hend : text.length ≤ o := List.drop_eq_nil_iff.mp hcs
    simp only [closeAfter, reduceCtorEq, false_iff]
    intro h
    have := (List.getElem?_eq_some_iff.mp h.closes.1).1
    have := h.le
    omega
  | cons a cs ih =>
    obtain ⟨ha, hcs'⟩ := drop_cons hcs
    simp only [closeAfter]
    split
    · next h =>
      have hl := level_open (h ▸ ha)
      rw [fallsAt_later (by omega) (by omega)]
      exact ih hcs' (by omega)
    · split
      · next h =>
        have hl := level_close (h ▸ ha)
        cases depth with
        | zero =>
          rw [fallsAt_here (by omega) (by omega)]
          simp
        | succ d =>
          rw [fallsAt_later (by omega) (by omega)]
          exact ih hcs' (by omega)
      · next hno hnc =>
        have hl : level text (o + 1) = level text o := by
          apply level_other <;> rw [ha] <;> simp [hno, hnc]
        rw [fallsAt_later (by omega) (by omega)]
        exact ih hcs' (by omega)

/-- The backward scan counts in the same way, from the other side. -/
theorem openBefore_eq_some {c : Int} {depth o s : Nat} (hd : level text o = c + depth) :
    (openBefore depth (text.take o).reverse).map List.length = some s ↔ RisesAt text c o s := by
  induction o generalizing depth with
  | zero =>
    simp only [List.take_zero, List.reverse_nil, openBefore, Option.map_none, reduceCtorEq, false_iff]
    exact fun h => Nat.not_lt_zero s h.lt
  | succ o ih =>
    rw [List.take_add_one]
    cases ha : text[o]? with
    | none =>
      have hl : level text (o + 1) = level text o := by
        apply level_other <;> rw [ha] <;> simp
      rw [risesAt_earlier (by omega) (by omega), Option.toList_none, List.append_nil]
      exact ih (by omega)
    | some a =>
      have hlen : (text.take o).length = o :=
        List.length_take_of_le (Nat.le_of_lt (List.getElem?_eq_some_iff.mp ha).1)
      simp only [Option.toList_some, List.reverse_append, List.reverse_singleton,
        List.singleton_append, openBefore]
      split
      · next h =>
        have hl := level_close (h ▸ ha)
        rw [risesAt_earlier (by omega) (by omega)]
        exact ih (by omega)
      · split
        · next h =>
          have hl := level_open (h ▸ ha)
          cases depth with
          | zero =>
            rw [risesAt_here (by omega) (by omega)]
            simp [hlen]
          | succ d =>
            rw [risesAt_earlier (by omega) (by omega)]
            exact ih (by omega)
        · next hnc hno =>
          have hl : level text (o + 1) = level text o := by
            apply level_other <;> rw [ha] <;> simp [hno, hnc]
          rw [risesAt_earlier (by omega) (by omega)]
          exact ih (by omega)

theorem stop?_eq_some {o e : Nat} :
    stop? text o = some e ↔ FallsAt text (level text o) o e := by
  rw [stop?, Int.toNat_natCast]
  exact closeAfter_eq_some rfl (by simp)

theorem start?_eq_some {o s : Nat} :
    start? text o = some s ↔ RisesAt text (level text o) o s := by
  rw [start?, Int.toNat_natCast]
  exact openBefore_eq_some (by simp)

/-- A block is where the level stays above that of its start until just before its end. -/
theorem isBlock_iff_level {s e : Nat} : IsBlock text s e ↔
    s < e ∧ level text (e + 1) = level text s ∧ ∀ i, s < i → i ≤ e → level text s < level text i := by
  constructor
  · rintro ⟨hlt, ho, hc, hb⟩
    have hle : s + 1 ≤ e := hlt
    obtain ⟨hge, heq⟩ := (balanced_slice hle).mp hb
    have ho := level_open ho
    have hc := level_close hc
    refine ⟨hlt, by omega, fun i hi hi' => ?_⟩
    have := hge i hi hi'
    omega
  · rintro ⟨hlt, heq, hgt⟩
    have hle : s + 1 ≤ e := hlt
    have hr : RisesAt text (level text s + 1) e s := ⟨hlt, by omega, hgt⟩
    have hf : FallsAt text (level text s + 1) (s + 1) e := ⟨hle, by omega, hgt⟩
    have ho := level_open hr.opens.1
    have hc := level_close hf.closes.1
    refine ⟨hlt, hr.opens.1, hf.closes.1, (balanced_slice hle).mpr ⟨fun i hi hi' => ?_, by omega⟩⟩
    have := hgt i hi hi'
    omega

/-- Where a block opens, the first `}` that takes the level back below it closes it. -/
theorem isBlock_iff_fallsAt {s e : Nat} : IsBlock text s e ↔
    text[s]? = some '{' ∧ FallsAt text (level text (s + 1)) (s + 1) e := by
  constructor
  · intro h
    obtain ⟨hlt, heq, hgt⟩ := isBlock_iff_level.mp h
    have hup := level_open h.opens
    refine ⟨h.opens, hlt, by omega, fun i hi hi' => ?_⟩
    have := hgt i hi hi'
    omega
  · rintro ⟨hopen, hfall⟩
    have hup := level_open hopen
    have hdown := hfall.closes.2
    refine isBlock_iff_level.mpr ⟨hfall.le, by omega, fun i hi hi' => ?_⟩
    have := hfall.above i hi hi'
    omega

/-- Where a block closes, the last `{` that lifts the level to that of the block opens it. -/
theorem isBlock_iff_risesAt {s e : Nat} : IsBlock text s e ↔
    text[e]? = some '}' ∧ RisesAt text (level text e) e s := by
  constructor
  · intro h
    obtain ⟨hlt, heq, hgt⟩ := isBlock_iff_level.mp h
    have hdown := level_close h.closes
    refine ⟨h.closes, hlt, by omega, fun i hi hi' => ?_⟩
    have := hgt i hi hi'
    omega
  · rintro ⟨hclose, hrise⟩
    have hdown := level_close hclose
    have hup := hrise.opens.2
    refine isBlock_iff_level.mpr ⟨hrise.lt, by omega, fun i hi hi' => ?_⟩
    have := hrise.above i hi hi'
    omega

theorem IsBlock.stop_le {s e e' : Nat} (h : IsBlock text s e) (h' : IsBlock text s e') : e ≤ e' := by
  obtain ⟨-, -, hgt⟩ := isBlock_iff_level.mp h
  obtain ⟨hlt', heq', -⟩ := isBlock_iff_level.mp h'
  apply Nat.le_of_not_lt
  intro hlt
  have := hgt (e' + 1) (by omega) hlt
  omega

theorem risesAt_exists {c : Int} {o s : Nat} (ho : c ≤ level text o) (hs : s < o)
    (hb : level text s < c) : ∃ t, RisesAt text c o t := by
  induction o with
  | zero => exact absurd hs (Nat.not_lt_zero s)
  | succ o ih =>
    rcases Int.lt_or_le (level text o) c with hlt | hle
    · exact ⟨o, (risesAt_here hlt ho).mpr rfl⟩
    · have hne : s ≠ o := by
        rintro rfl
        omega
      obtain ⟨t, ht⟩ := ih hle (by omega)
      exact ⟨t, (risesAt_earlier hle ho).mpr ht⟩

theorem fallsAt_exists {c : Int} {o e : Nat} (ho : c ≤ level text o) (he : o ≤ e)
    (hb : level text (e + 1) < c) : ∃ f, FallsAt text c o f := by
  obtain ⟨n, rfl⟩ := Nat.exists_eq_add_of_le he
  induction n generalizing o with
  | zero => exact ⟨o, (fallsAt_here ho hb).mpr rfl⟩
  | succ n ih =>
    rcases Int.lt_or_le (level text (o + 1)) c with hlt | hle
    · exact ⟨o, (fallsAt_here ho hlt).mpr rfl⟩
    · rw [show o + (n + 1) = o + 1 + n by omega] at hb
      obtain ⟨f, hf⟩ := ih hle (Nat.le_add_right ..) hb
      exact ⟨f, (fallsAt_later ho hle).mpr hf⟩

/-- The block lies around everything between `a` and `b`. -/
structure Around (text : List Char) (a b s e : Nat) : Prop where
  block : IsBlock text s e
  opened : s < a
  closing : b ≤ e

/-- If nothing is open between two places, the next brace that opens before them and the next one that
closes after them belong together. -/
theorem around_of_scans {a b s e : Nat} (hab : a ≤ b) (hb : Balanced (Document.slice text a b))
    (hs : start? text a = some s) (he : stop? text b = some e) : Around text a b s e := by
  obtain ⟨hge, heq⟩ := (balanced_slice hab).mp hb
  have hr := start?_eq_some.mp hs
  have hf := stop?_eq_some.mp he
  have hlow := hr.opens.2
  have hlow' := hf.closes.2
  have hsa := hr.lt
  have hbe := hf.le
  refine ⟨isBlock_iff_level.mpr ⟨by omega, by omega, fun i hi hi' => ?_⟩, hsa, hbe⟩
  rcases Nat.lt_or_ge a i with hai | hai
  · rcases Nat.lt_or_ge i b with hib | hib
    · have := hge i (Nat.le_of_lt hai) (Nat.le_of_lt hib)
      omega
    · have := hf.above i hib hi'
      omega
  · have := hr.above i hi hai
    omega

/-- Any other block around the two places lies around the one that the scans find. -/
theorem Around.outside {a b s e s' e' : Nat} (h : Around text a b s' e')
    (hab : a ≤ b) (hb : Balanced (Document.slice text a b)) (hs : start? text a = some s)
    (he : stop? text b = some e) : (s' = s ∧ e' = e) ∨ Around text s (e + 1) s' e' := by
  obtain ⟨-, hlevel⟩ := (balanced_slice hab).mp hb
  have hr := start?_eq_some.mp hs
  have hf := stop?_eq_some.mp he
  have hlow := hr.opens.2
  have hlow' := hf.closes.2
  obtain ⟨hlt, heq, hgt⟩ := isBlock_iff_level.mp h.block
  have hsa := h.opened
  have hbe := h.closing
  have hin := hgt a hsa (Nat.le_trans hab hbe)
  have hss : s' ≤ s := by
    apply Nat.le_of_not_lt
    intro hlt
    have := hr.above s' hlt (Nat.le_of_lt hsa)
    omega
  have hee : e ≤ e' := by
    apply Nat.le_of_not_lt
    intro hlt
    have := hf.above (e' + 1) (by omega) hlt
    omega
  rcases Nat.eq_or_lt_of_le hss with rfl | hss
  · rcases Nat.eq_or_lt_of_le hee with rfl | hee
    · exact .inl ⟨rfl, rfl⟩
    · have := hgt (e + 1) (by have := hf.le; omega) hee
      omega
  · rcases Nat.eq_or_lt_of_le hee with rfl | hee
    · have := hgt s hss (by have := hr.lt; omega)
      omega
    · exact .inr ⟨h.block, hss, hee⟩

theorem Around.scans {a b s e : Nat} (h : Around text a b s e) (hab : a ≤ b)
    (hb : Balanced (Document.slice text a b)) :
    ∃ s' e', start? text a = some s' ∧ stop? text b = some e' := by
  obtain ⟨-, hlevel⟩ := (balanced_slice hab).mp hb
  obtain ⟨hlt, heq, hgt⟩ := isBlock_iff_level.mp h.block
  have hsa := h.opened
  have hbe := h.closing
  have hin := hgt a hsa (Nat.le_trans hab hbe)
  obtain ⟨s', hs'⟩ := risesAt_exists (Int.le_refl (level text a)) hsa hin
  obtain ⟨e', he'⟩ := fallsAt_exists (Int.le_refl (level text b)) hbe (by omega)
  exact ⟨s', e', start?_eq_some.mpr hs', stop?_eq_some.mpr he'⟩

/-- A block with its braces is balanced again, so that the next pair of scans may start from it. -/
theorem IsBlock.balanced {s e : Nat} (h : IsBlock text s e) :
    Balanced (Document.slice text s (e + 1)) := by
  obtain ⟨hlt, heq, hgt⟩ := isBlock_iff_level.mp h
  refine (balanced_slice (by omega)).mpr ⟨fun i hi hi' => ?_, heq⟩
  rcases Nat.eq_or_lt_of_le hi with rfl | hi
  · exact Int.le_refl _
  · rcases Nat.eq_or_lt_of_le hi' with rfl | hi'
    · omega
    · exact Int.le_of_lt (hgt i hi (Nat.le_of_lt_succ hi'))

theorem outward_some {a b s e : Nat} (hs : start? text a = some s) (he : stop? text b = some e) :
    outward text a b = (s, e) :: outward text s (e + 1) := by
  rw [outward]
  split
  · next hs' he' =>
    cases hs.symm.trans hs'
    cases he.symm.trans he'
    rfl
  · next hn =>
    exact absurd he (hn s e hs)

theorem outward_none {a b : Nat} (h : ∀ s e, start? text a = some s → stop? text b ≠ some e) :
    outward text a b = [] := by
  rw [outward]
  split
  · next hs he => exact absurd he (h _ _ hs)
  · rfl

theorem balanced_empty (text : List Char) (o : Nat) : Balanced (Document.slice text o o) :=
  (balanced_slice (Nat.le_refl o)).mpr
    ⟨fun _ hi hi' => Nat.le_antisymm hi hi' ▸ Int.le_refl _, rfl⟩

/-- The blocks are all of those around the two places. -/
theorem mem_outward {a b s e : Nat} (hab : a ≤ b) (hb : Balanced (Document.slice text a b)) :
    (s, e) ∈ outward text a b ↔ Around text a b s e := by
  induction a using Nat.strongRecOn generalizing b with
  | ind a ih =>
    by_cases hscan : ∃ s' e', start? text a = some s' ∧ stop? text b = some e'
    · obtain ⟨s', e', hs, he⟩ := hscan
      have hnext := around_of_scans hab hb hs he
      have hlt := hnext.block.lt
      rw [outward_some hs he, List.mem_cons,
        ih s' hnext.opened (by omega) hnext.block.balanced]
      constructor
      · rintro (heq | h)
        · cases heq
          exact hnext
        · have hopened := h.opened
          have hclosing := h.closing
          have := hnext.opened
          have := hnext.closing
          exact ⟨h.block, by omega, by omega⟩
      · intro h
        rcases h.outside hab hb hs he with ⟨rfl, rfl⟩ | h
        · exact .inl rfl
        · exact .inr h
    · rw [outward_none fun s' e' hs he => hscan ⟨s', e', hs, he⟩]
      constructor
      · intro h
        cases h
      · exact fun h => absurd (h.scans hab hb) hscan

/-- They come innermost first. -/
theorem outward_inside_out {a b : Nat} (hab : a ≤ b) (hb : Balanced (Document.slice text a b)) :
    (outward text a b).Pairwise fun inner outer => outer.1 < inner.1 := by
  induction a using Nat.strongRecOn generalizing b with
  | ind a ih =>
    by_cases hscan : ∃ s' e', start? text a = some s' ∧ stop? text b = some e'
    · obtain ⟨s', e', hs, he⟩ := hscan
      have hnext := around_of_scans hab hb hs he
      have hlt := hnext.block.lt
      have hab' : s' ≤ e' + 1 := by omega
      rw [outward_some hs he]
      refine List.pairwise_cons.mpr ⟨fun outer h => ?_, ih s' hnext.opened hab' hnext.block.balanced⟩
      exact ((mem_outward hab' hnext.block.balanced).mp h).opened
    · rw [outward_none fun s' e' hs he => hscan ⟨s', e', hs, he⟩]
      exact .nil

end Callees.Block

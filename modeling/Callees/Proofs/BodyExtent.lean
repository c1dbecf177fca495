import Callees.Proofs.Blocks
import Callees.Proofs.Lines

namespace Callees.Block

open Text Document

variable {text : List Char} {c : Int}

theorem level_add {x : Nat} {w rest : List Char} (h : text.drop x = w ++ rest) :
    level text (x + w.length) = level text x + net w := by
  rw [level, List.take_add, h, List.take_left, net_append, level]

theorem level_plain {x i : Nat} {w rest : List Char} (h : text.drop x = w ++ rest) (ho : '{' ∉ w)
    (hc : '}' ∉ w) (hi : x ≤ i) (hi' : i ≤ x + w.length) : level text i = level text x := by
  have hlen : (w.take (i - x)).length = i - x := List.length_take_of_le (by omega)
  have hsplit : text.drop x = w.take (i - x) ++ (w.drop (i - x) ++ rest) := by
    rw [← List.append_assoc, List.take_append_drop, h]
  have hadd := level_add hsplit
  rw [hlen, Nat.add_sub_cancel' hi, net_eq_zero (fun h => ho (List.mem_of_mem_take h))
    fun h => hc (List.mem_of_mem_take h)] at hadd
  omega

theorem fallsAt_plain {x e : Nat} {w rest : List Char} (h : text.drop x = w ++ rest)
    (ho : '{' ∉ w) (hc : '}' ∉ w) (hl : c ≤ level text x) :
    FallsAt text c x e ↔ FallsAt text c (x + w.length) e :=
  fallsAt_past (Nat.le_add_right ..) fun _ hi hi' => (level_plain h ho hc hi hi').symm ▸ hl

theorem afterLine_plain {d : Depth} {w : List Char} (ho : '{' ∉ w) (hc : '}' ∉ w) :
    d.afterLine w = some d := by
  induction w with
  | nil => rfl
  | cons a w ih =>
    rw [List.mem_cons, not_or] at ho hc
    rw [Depth.afterLine, if_neg (Ne.symm ho.1), if_neg (Ne.symm hc.1)]
    exact ih ho.2 hc.2

theorem afterLine_first {d : Depth} {u : List Char} (v : List Char) (ho : '{' ∉ u) (hc : '}' ∉ u) :
    d.afterLine (u ++ '{' :: v) = Depth.afterLine ⟨d.level + 1, true⟩ v := by
  induction u with
  | nil => rfl
  | cons a u ih =>
    rw [List.mem_cons, not_or] at ho hc
    rw [List.cons_append, Depth.afterLine, if_neg (Ne.symm ho.1), if_neg (Ne.symm hc.1)]
    exact ih ho.2 hc.2

/-- What the count over a line from `x` to `y` should come to: nothing left, where the block closes on
the line, or the level at its end. -/
inductive Counted (text : List Char) (c : Int) (x y : Nat) : Option Depth → Prop
  | closes {e : Nat} (falls : FallsAt text c x e) (within : e < y) : Counted text c x y none
  | goesOn {m : Nat} (stays : level text y = c + m)
      (past : ∀ e, FallsAt text c x e ↔ FallsAt text c y e) :
      Counted text c x y (some ⟨m + 1, true⟩)

theorem Counted.earlier {x y : Nat} {d? : Option Depth} (h : Counted text c (x + 1) y d?)
    (hx : c ≤ level text x) (hx' : c ≤ level text (x + 1)) : Counted text c x y d? := by
  cases h with
  | closes falls within => exact .closes ((fallsAt_later hx hx').mpr falls) within
  | goesOn stays past => exact .goesOn stays fun e => (fallsAt_later hx hx').trans (past e)

/-- The count over a line keeps the level. -/
theorem afterLine_counted {x n : Nat} {w rest : List Char} (hw : text.drop x = w ++ rest)
    (hl : level text x = c + n) :
    Counted text c x (x + w.length) (Depth.afterLine ⟨n + 1, true⟩ w) := by
  induction w generalizing x n with
  | nil => exact .goesOn hl fun _ => .rfl
  | cons a w ih =>
    obtain ⟨ha, hw'⟩ := drop_cons hw
    rw [List.length_cons, Nat.add_comm w.length, ← Nat.add_assoc, Depth.afterLine]
    split
    · next ho =>
      have hup := level_open (ho ▸ ha)
      have h := ih hw' (n := n + 1) (by omega)
      exact h.earlier (by omega) (by omega)
    · next ho =>
      split
      · next hc =>
        have hdown := level_close (hc ▸ ha)
        cases n with
        | zero =>
          rw [if_pos ⟨rfl, rfl⟩]
          exact .closes ((fallsAt_here (by omega) (by omega)).mpr rfl) (by omega)
        | succ n =>
          rw [if_neg (by simp; omega)]
          have h := (ih hw' (n := n) (by omega)).earlier (by omega) (by omega)
          simpa using h
      · next hc =>
        have hsame : level text (x + 1) = level text x :=
          level_other (by simp [ha, ho]) (by simp [ha, hc])
        exact (ih hw' (by omega)).earlier (by omega) (by omega)

/-- What the lines from number `n` on should give for the block whose closing brace, at `x` or later,
takes the level below `c`. -/
inductive Agrees (text : List Char) (c : Int) (x n : Nat) (ls : List Line) : Option Body → Prop
  | unclosed (h : ∀ e, ¬ FallsAt text c x e) : Agrees text c x n ls none
  | closed {b : Body} {e : Nat} {l : Line} (falls : FallsAt text c x e)
      (line : lineOf e n ls = some (b.endLine, l))
      (lines : b.lines = (ls.map Line.chars).take (b.endLine + 1 - n)) :
      Agrees text c x n ls (some b)

theorem Agrees.past {x y n : Nat} {ls : List Line} {b? : Option Body} (h : Agrees text c x n ls b?)
    (hxy : ∀ e, FallsAt text c x e ↔ FallsAt text c y e) : Agrees text c y n ls b? := by
  cases h with
  | unclosed h => exact .unclosed fun e he => h e ((hxy e).mpr he)
  | closed falls line lines => exact .closed ((hxy _).mp falls) line lines

theorem Agrees.cons {x n : Nat} {l : Line} {ls : List Line} {b? : Option Body}
    (h : Agrees text c x (n + 1) ls b?) (hl : l.start ≤ x) :
    Agrees text c x n (l :: ls) (b?.map fun b => ⟨l.chars :: b.lines, b.endLine⟩) := by
  cases h with
  | unclosed h => exact .unclosed h
  | @closed b e m falls line lines =>
    have hn := le_lineOf line
    refine .closed (l := m) falls ?_ ?_
    · rw [lineOf, if_pos (Nat.le_trans hl falls.le), line]
      rfl
    · rw [show b.endLine + 1 - n = b.endLine + 1 - (n + 1) + 1 by omega, List.map_cons,
        List.take_succ_cons, ← lines]

/-- One line: the block closes on it, or the lines after it decide. -/
theorem agrees_line {d : Depth} {x n k : Nat} {l : Line} {ls : List Line} {v rest : List Char}
    (hd : d.afterLine l.chars = Depth.afterLine ⟨k + 1, true⟩ v) (hl : l.start ≤ x)
    (hx : x + v.length = l.stop) (hv : text.drop x = v ++ rest) (hk : level text x = c + k)
    (hls : ∀ m ∈ ls.head?, l.stop ≤ m.start)
    (htail : ∀ m : Nat, level text l.stop = c + m →
      Agrees text c l.stop (n + 1) ls (bodyFrom ⟨m + 1, true⟩ (n + 1) (ls.map Line.chars))) :
    Agrees text c x n (l :: ls) (bodyFrom d n ((l :: ls).map Line.chars)) := by
  have hcounted := afterLine_counted hv hk
  rw [hx, ← hd] at hcounted
  rw [List.map_cons, bodyFrom]
  generalize d.afterLine l.chars = d? at hcounted ⊢
  cases hcounted with
  | @closes e falls within =>
    refine .closed (l := l) falls ?_ (by simp)
    rw [lineOf, if_pos (Nat.le_trans hl falls.le)]
    cases ls with
    | nil => rfl
    | cons m ms =>
      have := hls m rfl
      rw [lineOf_before (by omega)]
      rfl
  | @goesOn m stays past => exact ((htail m stays).past fun e => (past e).symm).cons hl

theorem Break.plain {gap rest : List Char} (h : Text.Break gap rest) : '{' ∉ gap ∧ '}' ∉ gap := by
  cases h <;> simp

theorem agrees_end {y n : Nat} (h : text.drop y = []) : Agrees text c y n [] none := by
  refine .unclosed fun e he => ?_
  have hlen := List.drop_eq_nil_iff.mp h
  have := (List.getElem?_eq_some_iff.mp he.closes.1).1
  have := he.le
  omega

/-- No brace is in a line break. -/
theorem agrees_gap {y n : Nat} {gap rest : List Char} {ls : List Line} {b? : Option Body}
    (hy : text.drop y = gap ++ rest) (ends : Text.Break gap rest) (hl : c ≤ level text y)
    (h : Agrees text c (y + gap.length) n ls b?) : Agrees text c y n ls b? := by
  obtain ⟨ho, hc⟩ := Break.plain ends
  exact h.past fun e => (fallsAt_plain hy ho hc hl).symm

/-- Inside a block, the lines agree with the scan. -/
theorem agrees_open {o n k : Nat} {cs : List Char} {ls : List Line} (h : Layout o cs ls)
    (hcs : text.drop o = cs) (hk : level text o = c + k) :
    Agrees text c o n ls (bodyFrom ⟨k + 1, true⟩ n (ls.map Line.chars)) := by
  induction h generalizing n k with
  | @last o w =>
    have hend : text.drop (o + w.length) = [] := by rw [← List.drop_drop, hcs, List.drop_length]
    rw [← List.append_nil w] at hcs
    exact agrees_line rfl (Nat.le_refl o) rfl hcs hk (by simp) fun m _ => agrees_end hend
  | @broken o w gap rest ls flat ends more ih =>
    have hgap : text.drop (o + w.length) = gap ++ rest := by
      rw [← List.drop_drop, hcs, List.drop_left]
    have hrest : text.drop (o + w.length + gap.length) = rest := by
      rw [← List.drop_drop, hgap, List.drop_left]
    obtain ⟨ho, hc⟩ := Break.plain ends
    have hflat := level_plain hgap ho hc (Nat.le_add_right ..) (Nat.le_refl _)
    have hstop := (Layout.broken flat ends more).stop_le
    refine agrees_line rfl (Nat.le_refl o) rfl hcs hk
      (fun m hm => hstop m (List.mem_of_mem_head? hm)) fun m hm => ?_
    have hm' : level text (o + w.length) = c + m := hm
    exact agrees_gap hgap ends (by omega) (ih hrest (hflat.trans hm'))

theorem plain_of_offsets {x a : Nat} {w rest : List Char} (hw : text.drop x = w ++ rest)
    (ha : x + w.length ≤ a)
    (hplain : ∀ i, x ≤ i → i < a → text[i]? ≠ some '{' ∧ text[i]? ≠ some '}') :
    '{' ∉ w ∧ '}' ∉ w := by
  have hat (b : Char) (hb : b ∈ w) : ∃ i, x ≤ i ∧ i < a ∧ text[i]? = some b := by
    obtain ⟨j, hj⟩ := List.mem_iff_getElem?.mp hb
    have hlt := (List.getElem?_eq_some_iff.mp hj).1
    refine ⟨x + j, Nat.le_add_right .., by omega, ?_⟩
    rw [← List.getElem?_drop, hw, List.getElem?_append_left hlt, hj]
  constructor
  · intro hb
    obtain ⟨i, hi, hi', ht⟩ := hat '{' hb
    exact (hplain i hi hi').1 ht
  · intro hb
    obtain ⟨i, hi, hi', ht⟩ := hat '}' hb
    exact (hplain i hi hi').2 ht

/-- The line on which the first brace stands, a `{`. -/
theorem agrees_first {n a : Nat} {l : Line} {ls : List Line} {rest : List Char}
    (hl : text.drop l.start = l.chars ++ rest) (ha : l.start ≤ a) (ha' : a < l.stop)
    (hbrace : text[a]? = some '{')
    (hplain : ∀ i, l.start ≤ i → i < a → text[i]? ≠ some '{' ∧ text[i]? ≠ some '}')
    (hls : ∀ m ∈ ls, l.stop ≤ m.start)
    (htail : ∀ m : Nat, level text l.stop = level text (a + 1) + m →
      Agrees text (level text (a + 1)) l.stop (n + 1) ls
        (bodyFrom ⟨m + 1, true⟩ (n + 1) (ls.map Line.chars))) :
    Agrees text (level text (a + 1)) (a + 1) n (l :: ls)
      (bodyFrom ⟨0, false⟩ n ((l :: ls).map Line.chars)) := by
  simp only [Line.stop] at ha'
  have hlen : (l.chars.take (a - l.start)).length = a - l.start :=
    List.length_take_of_le (by omega)
  have hat : text.drop a = l.chars.drop (a - l.start) ++ rest := by
    rw [← Nat.add_sub_cancel' ha, ← List.drop_drop, hl,
      List.drop_append_of_le_length (by omega), Nat.add_sub_cancel' ha]
  cases hv : l.chars.drop (a - l.start) with
  | nil =>
    have := List.drop_eq_nil_iff.mp hv
    omega
  | cons b v =>
    rw [hv] at hat
    obtain ⟨hb, hafter⟩ := drop_cons hat
    cases hbrace.symm.trans hb
    have hsplit : l.chars = l.chars.take (a - l.start) ++ '{' :: v := by
      rw [← hv, List.take_append_drop]
    have hbefore : text.drop l.start = l.chars.take (a - l.start) ++ ('{' :: v ++ rest) := by
      rw [← List.append_assoc, ← hsplit, hl]
    obtain ⟨ho, hc⟩ := plain_of_offsets hbefore (by omega) hplain
    have hlast := congrArg List.length hsplit
    rw [List.length_append, hlen, List.length_cons] at hlast
    refine agrees_line (k := 0) (v := v) ?_ (by omega) ?_ hafter (by simp)
      (fun m hm => hls m (List.mem_of_mem_head? hm)) htail
    · rw [hsplit, afterLine_first v ho hc]
      rfl
    · simp only [Line.stop]
      omega

/-- From a line that starts before the first brace, which is a `{`, the lines agree with the scan from
right after it. -/
theorem agrees_before {o n a : Nat} {cs : List Char} {ls : List Line} (h : Layout o cs ls)
    (hcs : text.drop o = cs) (ha : o ≤ a) (hbrace : text[a]? = some '{')
    (hplain : ∀ i, o ≤ i → i < a → text[i]? ≠ some '{' ∧ text[i]? ≠ some '}') :
    Agrees text (level text (a + 1)) (a + 1) n ls
      (bodyFrom ⟨0, false⟩ n (ls.map Line.chars)) := by
  induction h generalizing n with
  | @last o w =>
    have hend : text.drop (o + w.length) = [] := by rw [← List.drop_drop, hcs, List.drop_length]
    have hlt := (List.getElem?_eq_some_iff.mp hbrace).1
    have hlen := List.drop_eq_nil_iff.mp hend
    rw [← List.append_nil w] at hcs
    exact agrees_first hcs ha (by simp only [Line.stop]; omega) hbrace hplain (by simp)
      fun m _ => agrees_end hend
  | @broken o w gap rest ls flat ends more ih =>
    have hgap : text.drop (o + w.length) = gap ++ rest := by
      rw [← List.drop_drop, hcs, List.drop_left]
    have hrest : text.drop (o + w.length + gap.length) = rest := by
      rw [← List.drop_drop, hgap, List.drop_left]
    obtain ⟨ho, hc⟩ := Break.plain ends
    have hflat := level_plain hgap ho hc (Nat.le_add_right ..) (Nat.le_refl _)
    rcases Nat.lt_or_ge a (o + w.length) with hlt | hge
    · refine agrees_first hcs ha hlt hbrace hplain (Layout.broken flat ends more).stop_le
        fun m hm => ?_
      have hm' : level text (o + w.length) = level text (a + 1) + m := hm
      exact agrees_gap hgap ends (by omega) (agrees_open more hrest (hflat.trans hm'))
    · have hge' : o + w.length + gap.length ≤ a := by
        apply Nat.le_of_not_lt
        intro hlt
        have hin : text[a]? = gap[a - (o + w.length)]? := by
          rw [← Nat.add_sub_cancel' hge, ← List.getElem?_drop, hgap,
            List.getElem?_append_left (by omega), Nat.add_sub_cancel' hge]
        exact ho (List.mem_of_getElem? (hin.symm.trans hbrace))
      obtain ⟨how, hcw⟩ := plain_of_offsets hcs hge hplain
      rw [List.map_cons, bodyFrom, afterLine_plain how hcw]
      exact (ih hrest hge' fun i hi hi' => hplain i (by omega) hi').cons (by simp only; omega)

/-- The first brace at an offset or behind it, where that is a `{`. -/
structure OpensFirst (text : List Char) (x a : Nat) : Prop where
  le : x ≤ a
  opens : text[a]? = some '{'
  plain : ∀ i, x ≤ i → i < a → text[i]? ≠ some '{' ∧ text[i]? ≠ some '}'

/-- The body from a line on, where the first brace from there on is a `{`. -/
theorem body?_agrees (d : Document) {n a : Nat} {l : Line} (hl : d.lines[n]? = some l)
    (h : OpensFirst d.chars l.start a) :
    Agrees d.chars (level d.chars (a + 1)) (a + 1) n (d.lines.drop n) (body? d.lineTexts n) := by
  have hlay := (lines_layout d.chars).drop (i := n) rfl hl
  rw [body?, if_neg (by omega), Int.toNat_natCast, lineTexts, ← List.map_drop]
  exact agrees_before hlay rfl h.le h.opens h.plain

/-- Where the scan finds the brace that closes the block, a body is collected up to the line of that
brace. -/
theorem body?_of_falls {d : Document} {n a f : Nat} {l : Line} (hl : d.lines[n]? = some l)
    (h : OpensFirst d.chars l.start a) (hf : FallsAt d.chars (level d.chars (a + 1)) (a + 1) f) :
    ∃ body, body? d.lineTexts n = some body ∧
      body.lines = (d.lineTexts.drop n).take (body.endLine + 1 - n) ∧
      body.endLine = (d.positionAt f).line := by
  have hagrees := body?_agrees d hl h
  cases hb : body? d.lineTexts n with
  | none =>
    rw [hb] at hagrees
    cases hagrees with
    | unclosed h => exact absurd hf (h f)
  | some body =>
    rw [hb] at hagrees
    cases hagrees with
    | @closed _ f' m falls line lines =>
      cases hf.unique falls
      have hfl := (List.getElem?_eq_some_iff.mp hf.closes.1).1
      have hle := hf.le
      have hfirst := h.le
      have hdrop : lineOf f 0 d.lines = lineOf f (0 + n) (d.lines.drop n) :=
        lineOf_drop (lines_layout d.chars) hl (by omega)
      rw [Nat.zero_add, line] at hdrop
      refine ⟨body, rfl, ?_, ?_⟩
      · rw [lines, lineTexts, List.map_drop]
      · rw [d.positionAt_eq (by omega) hdrop]

/-- Where it finds none, no body is collected. -/
theorem body?_of_unclosed {d : Document} {n a : Nat} {l : Line} (hl : d.lines[n]? = some l)
    (h : OpensFirst d.chars l.start a)
    (hf : ∀ f, ¬ FallsAt d.chars (level d.chars (a + 1)) (a + 1) f) : body? d.lineTexts n = none := by
  have hagrees := body?_agrees d hl h
  cases hb : body? d.lineTexts n with
  | none => rfl
  | some body =>
    rw [hb] at hagrees
    cases hagrees with
    | @closed _ f _ falls => exact absurd falls (hf f)

end Callees.Block

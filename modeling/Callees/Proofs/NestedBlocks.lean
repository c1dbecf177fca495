import Callees.Proofs.Blocks

namespace Callees.Block

/-- The headers one after another, each with the brace that opens its block. -/
def opened (headers : List (List Char)) : List Char := headers.flatMap (· ++ ['{'])

@[simp] theorem opened_nil : opened [] = [] := rfl

@[simp] theorem opened_cons (h : List Char) (hs : List (List Char)) :
    opened (h :: hs) = h ++ '{' :: opened hs := by
  simp [opened]

@[simp] theorem opened_append (hs hs' : List (List Char)) :
    opened (hs ++ hs') = opened hs ++ opened hs' := List.flatMap_append

variable {text : List Char} {headers before after : List (List Char)} {h body closing : List Char}

theorem net_opened (hplain : ∀ h ∈ headers, '{' ∉ h ∧ '}' ∉ h) : net (opened headers) = headers.length := by
  induction headers with
  | nil => rfl
  | cons h hs ih =>
    obtain ⟨⟨ho, hc⟩, hs'⟩ := List.forall_mem_cons.mp hplain
    rw [opened_cons, ← List.singleton_append, net_append, net_append, net_eq_zero ho hc, net_open, ih hs',
      List.length_cons]
    omega

theorem close_not_mem_opened (hplain : ∀ h ∈ headers, '{' ∉ h ∧ '}' ∉ h) : '}' ∉ opened headers := by
  intro hmem
  obtain ⟨h, hh, hc⟩ := List.mem_flatMap.mp hmem
  rcases List.mem_append.mp hc with hc | hc
  · exact (hplain h hh).2 hc
  · simp at hc

/-- Each brace that opens follows one of the headers. -/
theorem header_of_open (hplain : ∀ h ∈ headers, '{' ∉ h ∧ '}' ∉ h) {s : Nat}
    (hs : (opened headers)[s]? = some '{') :
    ∃ before h after, headers = before ++ h :: after ∧ s = (opened before ++ h).length := by
  induction headers generalizing s with
  | nil => simp at hs
  | cons h hs' ih =>
    obtain ⟨⟨ho, -⟩, hplain⟩ := List.forall_mem_cons.mp hplain
    rw [opened_cons] at hs
    rcases Nat.lt_trichotomy s h.length with hlt | rfl | hgt
    · rw [List.getElem?_append_left hlt] at hs
      exact absurd (List.mem_of_getElem? hs) ho
    · exact ⟨[], h, hs', rfl, rfl⟩
    · obtain ⟨k, rfl⟩ := Nat.exists_eq_add_of_le (Nat.succ_le_of_lt hgt)
      rw [List.getElem?_append_right (by omega), show h.length.succ + k - h.length = k + 1 by omega,
        List.getElem?_cons_succ] at hs
      obtain ⟨before, h', after, rfl, rfl⟩ := ih hplain hs
      refine ⟨h :: before, h', after, rfl, ?_⟩
      simp only [opened_cons, List.length_append, List.length_cons]
      omega

/-- Headers without braces, a text in the middle without braces, and a brace at last for each header. -/
structure Nested (headers : List (List Char)) (body closing : List Char) : Prop where
  headers_plain : ∀ h ∈ headers, '{' ∉ h ∧ '}' ∉ h
  body_plain : '{' ∉ body ∧ '}' ∉ body
  opens_none : '{' ∉ closing
  closes : closing.count '}' = headers.length
  last : closing.getLast? = some '}'

namespace Nested

variable {o s e : Nat}

theorem closing_pos (hn : Nested headers body closing) : 0 < closing.length :=
  List.length_pos_of_mem (List.mem_of_getLast? hn.last)

theorem net_closing (hn : Nested headers body closing) : net closing = -headers.length := by
  rw [net, List.count_eq_zero.mpr hn.opens_none, hn.closes]
  omega

theorem level_end (hn : Nested headers body closing) (ht : text = opened headers ++ (body ++ closing)) :
    level text text.length = 0 := by
  rw [level, List.take_length, ht, net_append, net_append, net_opened hn.headers_plain,
    net_eq_zero hn.body_plain.1 hn.body_plain.2, hn.net_closing]
  omega

theorem no_close (hn : Nested headers body closing) (ht : text = opened headers ++ (body ++ closing))
    {i : Nat} (hi : i < (opened headers).length + body.length) : text[i]? ≠ some '}' := by
  intro hc
  rw [ht, ← List.append_assoc, List.getElem?_append_left (by rw [List.length_append]; exact hi)] at hc
  rcases List.mem_append.mp (List.mem_of_getElem? hc) with hmem | hmem
  · exact close_not_mem_opened hn.headers_plain hmem
  · exact hn.body_plain.2 hmem

/-- Each header opens a block around the middle. -/
theorem around (hn : Nested (before ++ h :: after) body closing)
    (ht : text = opened (before ++ h :: after) ++ (body ++ closing))
    (ho : (opened (before ++ h :: after)).length ≤ o)
    (ho' : o ≤ (opened (before ++ h :: after)).length + body.length) :
    ∃ e, Around text o o (opened before ++ h).length e := by
  have hlen : (opened before ++ h).length < (opened (before ++ h :: after)).length := by
    simp only [opened_append, opened_cons, List.length_append, List.length_cons]
    omega
  have hopen : text[(opened before ++ h).length]? = some '{' := by
    have hsplit : text = (opened before ++ h) ++ '{' :: (opened after ++ (body ++ closing)) := by
      simp [ht]
    rw [hsplit, List.getElem?_append_right (Nat.le_refl _), Nat.sub_self]
    rfl
  generalize (opened before ++ h).length = s at *
  have hup := level_open hopen
  have hzero : 0 ≤ level text s :=
    le_level_of_no_close (Nat.zero_le s) fun i _ hi => hn.no_close ht (by omega)
  have hend := hn.level_end ht
  have hlength := congrArg List.length ht
  have hclosing := hn.closing_pos
  simp only [List.length_append] at hlength
  obtain ⟨e, he⟩ := fallsAt_exists (Int.le_refl (level text (s + 1)))
    (show s + 1 ≤ text.length - 1 by omega) (by
      rw [Nat.sub_add_cancel (by omega), hend]
      omega)
  refine ⟨e, isBlock_iff_fallsAt.mpr ⟨hopen, he⟩, by omega, ?_⟩
  apply Nat.le_of_not_lt
  intro hlt
  have hle := he.le
  have hbelow := he.below
  have := le_level_of_no_close (show s + 1 ≤ e + 1 by omega) fun i _ hi => hn.no_close ht (by omega)
  omega

/-- Nothing else is a block around the middle. -/
theorem of_around (hn : Nested headers body closing) (ht : text = opened headers ++ (body ++ closing))
    (ho : o ≤ (opened headers).length + body.length) (h : Around text o o s e) :
    ∃ before h after, headers = before ++ h :: after ∧ s = (opened before ++ h).length := by
  have hopen := h.block.opens
  have hso := h.opened
  rw [ht] at hopen
  rcases Nat.lt_or_ge s (opened headers).length with hlt | hge
  · rw [List.getElem?_append_left hlt] at hopen
    exact header_of_open hn.headers_plain hopen
  · rw [List.getElem?_append_right hge, List.getElem?_append_left (by omega)] at hopen
    exact absurd (List.mem_of_getElem? hopen) hn.body_plain.1

/-- The block of the first header ends with the text. -/
theorem outermost_ends (hn : Nested (h :: after) body closing)
    (ht : text = opened (h :: after) ++ (body ++ closing)) (ho : (opened (h :: after)).length ≤ o)
    (ha : Around text o o h.length e) : e + 1 = text.length := by
  have hle := (List.getElem?_eq_some_iff.mp ha.block.closes).1
  have hoe := ha.closing
  have hfirst : level text h.length = 0 := by
    obtain ⟨hplain, -⟩ := List.forall_mem_cons.mp hn.headers_plain
    rw [level, ht, opened_cons, List.append_assoc, List.take_left, net_eq_zero hplain.1 hplain.2]
  have hdown := (isBlock_iff_level.mp ha.block).2.1
  have hend := hn.level_end ht
  apply Nat.le_antisymm hle
  apply Nat.le_of_not_lt
  intro hlt
  have hrest := level_slice text (Nat.le_of_lt hlt)
  rw [Document.slice, List.take_length] at hrest
  have hopen : '{' ∉ text.drop (e + 1) := by
    rw [ht, List.drop_append, List.drop_eq_nil_of_le (by omega), List.nil_append]
    intro hmem
    exact (List.mem_append.mp (List.mem_of_mem_drop hmem)).elim hn.body_plain.1 hn.opens_none
  have hclose : '}' ∈ text.drop (e + 1) := by
    apply List.mem_of_getLast?
    rw [List.getLast?_drop, if_neg (by omega), ht, List.getLast?_append, List.getLast?_append, hn.last]
    rfl
  have hpos := List.count_pos_iff.mpr hclose
  rw [Nat.succ_eq_add_one, net, List.count_eq_zero.mpr hopen] at hrest
  omega

end Nested

end Callees.Block

import Callees.Proofs.HeaderReads

namespace Callees.Text

theorem isBlank_of_isIdentChar {c : Char} (h : isIdentChar c = true) : isBlank c = false := by
  refine Bool.eq_false_iff.mpr fun hblank => ?_
  rw [isIdentChar_of_isBlank hblank] at h
  cases h

/-- What ends with no character of a kind is found again behind those that follow it. -/
theorem trimRight_append {p : Char → Bool} {u v : List Char}
    (hu : u.getLast?.any p = false) (hv : ∀ c ∈ v, p c = true) : trimRight p (u ++ v) = u := by
  rw [trimRight, List.reverse_append, List.dropWhile_append_of_pos fun c hc =>
    hv c (List.mem_reverse.mp hc)]
  rw [← List.head?_reverse] at hu
  cases hr : u.reverse with
  | nil =>
    rw [List.reverse_eq_nil_iff.mp hr]
    rfl
  | cons c cs =>
    rw [hr] at hu
    have hc : ¬ p c = true := Bool.eq_false_iff.mp hu
    rw [List.dropWhile_cons_of_neg hc, ← hr, List.reverse_reverse]

/-- Two ways to split a text behind its last character of another kind are the same. -/
theorem append_unique {p : Char → Bool} {u v u' v' : List Char} (h : u ++ v = u' ++ v')
    (hu : u.getLast?.any p = false) (hv : ∀ c ∈ v, p c = true) (hu' : u'.getLast?.any p = false)
    (hv' : ∀ c ∈ v', p c = true) : u = u' ∧ v = v' := by
  have htrim := congrArg (trimRight p) h
  rw [trimRight_append hu hv, trimRight_append hu' hv'] at htrim
  subst htrim
  exact ⟨rfl, List.append_cancel_left h⟩

theorem getLast?_any_of_all {p q : Char → Bool} (u : List Char) {v : List Char} (hne : v ≠ [])
    (hv : ∀ c ∈ v, p c = true) (hpq : ∀ c, p c = true → q c = false) :
    (u ++ v).getLast?.any q = false := by
  rw [List.getLast?_append, List.getLast?_eq_some_getLast hne]
  exact hpq _ (hv _ (List.getLast_mem hne))

/-- The last character of another kind, and what stands before it. -/
theorem last_unique {p : Char → Bool} {u v u' v' : List Char} {a a' : Char} (h : u ++ a :: v = u' ++ a' :: v')
    (ha : p a = false) (hv : ∀ c ∈ v, p c = true) (ha' : p a' = false) (hv' : ∀ c ∈ v', p c = true) :
    u = u' ∧ a = a' := by
  have hends {w : List Char} {c : Char} (hc : p c = false) : (w ++ [c]).getLast?.any p = false := by
    rw [List.getLast?_concat]
    exact hc
  rw [List.append_cons, List.append_cons u'] at h
  obtain ⟨heq, -⟩ := append_unique h (hends ha) hv (hends ha') hv'
  obtain ⟨hu, hsign⟩ := List.append_inj' heq rfl
  exact ⟨hu, List.singleton_inj.mp hsign⟩

end Callees.Text

namespace Callees.Header

open Pattern Text

/-- Every prefix has at least as many `(` as `)`, and the totals are equal. -/
structure Matched (w : List Char) : Prop where
  closed : ∀ n, (w.take n).count ')' ≤ (w.take n).count '('
  total : w.count '(' = w.count ')'

instance : DecidablePred Matched := fun w =>
  decidable_of_iff ((∀ n < w.length, (w.take n).count ')' ≤ (w.take n).count '(') ∧ w.count '(' = w.count ')') <| by
    constructor
    · rintro ⟨hclosed, htotal⟩
      refine ⟨fun n => ?_, htotal⟩
      rcases Nat.lt_or_ge n w.length with hlt | hge
      · exact hclosed n hlt
      · rw [List.take_of_length_le hge]
        exact Nat.le_of_eq htotal.symm
    · intro h
      exact ⟨fun n _ => h.closed n, h.total⟩

namespace Matched

variable {u v w : List Char}

theorem plain (ho : '(' ∉ w) (hc : ')' ∉ w) : Matched w := by
  refine ⟨fun n => ?_, by rw [List.count_eq_zero.mpr ho, List.count_eq_zero.mpr hc]⟩
  rw [List.count_eq_zero.mpr fun h => hc (List.mem_of_mem_take h)]
  exact Nat.zero_le _

theorem append (hu : Matched u) (hv : Matched v) : Matched (u ++ v) := by
  refine ⟨fun n => ?_, by rw [List.count_append, List.count_append, hu.total, hv.total]⟩
  rw [List.take_append, List.count_append, List.count_append]
  exact Nat.add_le_add (hu.closed n) (hv.closed _)

theorem pair (hw : Matched w) : Matched ('(' :: (w ++ [')'])) := by
  refine ⟨fun n => ?_, ?_⟩
  · cases n with
    | zero => exact Nat.le_refl _
    | succ n =>
      have hlast : ([')'].take (n - w.length)).count ')' ≤ 1 :=
        (List.take_sublist _ _).count_le ')'
      have hclosed := hw.closed n
      simp only [List.take_succ_cons, List.take_append, List.count_cons_self, List.count_append,
        List.count_cons_of_ne (show '(' ≠ ')' by decide)]
      omega
  · have htotal := hw.total
    simp [htotal]

/-- A parenthesis that opens inside is closed inside. -/
theorem ne_of_open (hw : Matched w) (hv : Matched v) : w ≠ u ++ '(' :: v := by
  rintro rfl
  have hclosed := hw.closed u.length
  have htotal := hw.total
  have hinner := hv.total
  rw [List.take_left] at hclosed
  simp only [List.count_append, List.count_cons_self,
    List.count_cons_of_ne (show '(' ≠ ')' by decide)] at htotal
  omega

/-- The parenthesis that opens the last pair. -/
theorem open_unique {u' v' : List Char} (h : u ++ '(' :: v = u' ++ '(' :: v') (hv : Matched v)
    (hv' : Matched v') : u = u' ∧ v = v' := by
  rcases List.append_eq_append_iff.mp h with ⟨m, hu, hright⟩ | ⟨m, hu, hright⟩
  · cases m with
    | nil => exact ⟨((List.append_nil u).symm.trans hu.symm), (List.cons.inj hright).2⟩
    | cons c m =>
      obtain ⟨rfl, hinside⟩ := List.cons.inj hright
      exact absurd hinside (hv.ne_of_open hv')
  · cases m with
    | nil => exact ⟨hu.trans (List.append_nil u'), (List.cons.inj hright).2.symm⟩
    | cons c m =>
      obtain ⟨rfl, hinside⟩ := List.cons.inj hright
      exact absurd hinside (hv'.ne_of_open hv)

end Matched

theorem params_takes_matched : params.TakesOnly fun w => ∃ v, Matched v ∧ w = '(' :: (v ++ [')']) := by
  have hplain {p : Pattern} (ho : p.avoids '(' = true) (hc : p.avoids ')' = true) : p.TakesOnly Matched :=
    .of_avoids fun _ hw => .plain (hw '(' ho) (hw ')' hc)
  have hpair : (all [char '(', many (noneOf ['(', ')', '{', '}']), char ')']).TakesOnly Matched := by
    refine (TakesOnly.enclosed (hplain rfl rfl)).mono ?_
    rintro _ ⟨v, hv, rfl⟩
    exact hv.pair
  exact .enclosed (.many (.plain List.not_mem_nil List.not_mem_nil) (fun _ _ => .append)
    (.either (hplain rfl rfl) (.either hpair (hplain rfl rfl))))

theorem generics_takes : generics.TakesOnly fun w => w = [] ∨ ∃ v, w = v ++ ['>'] := by
  refine .either ?_ ?_
  · refine (TakesOnly.enclosed (P := fun _ => True) (.of_avoids fun _ _ => trivial)).mono ?_
    rintro _ ⟨v, -, rfl⟩
    exact .inr ⟨'<' :: v, rfl⟩
  · intro s t h
    cases h
    exact ⟨[], rfl, .inl rfl⟩

theorem parenthesized_reads {s t : Cursor} (h : parenthesized.Reads s t) :
    ∃ b g b' inner rest, Blank b ∧ (g = [] ∨ ∃ v, g = v ++ ['>']) ∧ Blank b' ∧ Matched inner ∧
      ')' ∉ rest ∧ s.rest = (b ++ (g ++ b')) ++ '(' :: (inner ++ ')' :: rest) := by
  have hends := h.ends rfl
  cases h with
  | next first rest =>
    obtain ⟨b, hb, hs, -⟩ := (spells_blanks s _).mp first
    cases rest with
    | next generic rest =>
      obtain ⟨g, hg, hgeneric⟩ := generics_takes _ _ generic
      cases rest with
      | next second rest =>
        obtain ⟨b', hb', hs', -⟩ := (spells_blanks _ _).mp second
        cases rest with
        | next list rest =>
          obtain ⟨_, hlist, inner, hinner, rfl⟩ := params_takes_matched _ _ list
          have hrest : (all [returnType, blanks, atEnd]).Reads _ t := rest
          obtain ⟨w, hw, havoids⟩ := hrest.takes
          rw [hends, List.append_nil] at hw
          refine ⟨b, g, b', inner, w, hb, hgeneric, hb', hinner, havoids ')' rfl, ?_⟩
          rw [hs, hg, hs', hlist, hw]
          simp

/-- A word that stands apart, and a pair of parentheses behind it that ends the text. -/
structure LastParens where
  lead : List Char
  word : List Char
  space : List Char
  inner : List Char
  gap : List Char
  edge : lead.getLast?.any isIdentChar = false
  identifier : isIdentifier word = true
  space_blank : Blank space
  inner_matched : Matched inner
  gap_blank : Blank gap

namespace LastParens

def head (e : LastParens) : List Char := (e.lead ++ e.word) ++ e.space

def text (e : LastParens) : List Char := e.head ++ '(' :: (e.inner ++ ')' :: e.gap)

variable {e : LastParens} {x y : List Char} {s t : Cursor}

theorem word_ends (e : LastParens) {q : Char → Bool} (hq : ∀ c, isIdentChar c = true → q c = false) :
    (e.lead ++ e.word).getLast?.any q = false :=
  getLast?_any_of_all e.lead (isIdentifier_ne_nil e.identifier) (isIdentifier_all e.identifier) hq

/-- The last word, and what stands before it. -/
theorem split_unique {w b : List Char} (h : e.head = (x ++ w) ++ b) (hx : x.getLast?.any isIdentChar = false)
    (hw : isIdentifier w = true) (hb : Blank b) : e.lead = x ∧ e.word = w := by
  have hchars := isIdentifier_all hw
  have hends := getLast?_any_of_all x (isIdentifier_ne_nil hw) hchars fun _ => isBlank_of_isIdentChar
  obtain ⟨hlast, -⟩ := append_unique h (e.word_ends fun _ => isBlank_of_isIdentChar) e.space_blank hends hb
  exact append_unique hlast e.edge (isIdentifier_all e.identifier) hx hchars

/-- No type parameters follow the word, so a header has only blanks between it and the parentheses. -/
theorem head_of_parenthesized (hs : e.text = y ++ s.rest) (h : parenthesized.Reads s t) :
    ∃ b, Blank b ∧ e.head = y ++ b := by
  obtain ⟨b, g, b', inner, rest, hb, hg, hb', hinner, hrest, hread⟩ := parenthesized_reads h
  have hgap : ')' ∉ e.gap := fun hc => by cases e.gap_blank _ hc
  have hother {w : List Char} (hw : ')' ∉ w) : ∀ c ∈ w, (c != ')') = true := by
    intro c hc
    rw [bne_iff_ne]
    rintro rfl
    exact hw hc
  have hclose : (e.head ++ '(' :: e.inner) ++ ')' :: e.gap =
      ((y ++ (b ++ (g ++ b'))) ++ '(' :: inner) ++ ')' :: rest := by
    rw [hread] at hs
    simpa [text] using hs
  obtain ⟨hopen, -⟩ := last_unique (p := (· != ')')) hclose rfl (hother hgap) rfl (hother hrest)
  obtain ⟨hhead, -⟩ := Matched.open_unique hopen e.inner_matched hinner
  rcases hg with rfl | ⟨v, rfl⟩
  · exact ⟨b ++ b', List.forall_mem_append.mpr ⟨hb, hb'⟩, hhead⟩
  · -- the word would end with the sign that closes the type parameters
    have hsplit : e.lead ++ e.word ++ e.space = (y ++ (b ++ v) ++ ['>']) ++ b' := by
      simpa [head] using hhead
    have hends : (y ++ (b ++ v) ++ ['>']).getLast?.any isBlank = false := by
      rw [List.getLast?_concat]
      rfl
    obtain ⟨heq, -⟩ := append_unique hsplit (e.word_ends fun _ => isBlank_of_isIdentChar) e.space_blank
      hends hb'
    have hsign := e.word_ends (q := (· == '>')) fun c hc => by
      rw [beq_eq_false_iff_ne]
      rintro rfl
      cases hc
    rw [heq, List.getLast?_concat] at hsign
    cases hsign

theorem of_method (hs : e.text = y ++ s.rest)
    (hedge : s.before.any isIdentChar = y.getLast?.any isIdentChar)
    (h : Shape.method.pattern.Reads s t) :
    e.lead = y ∧ t.name = some (s.offset, s.offset + e.word.length) := by
  obtain ⟨hno, w, u, hw, hrest, hparens, hname⟩ := method_reads h
  rw [hrest, ← List.append_assoc] at hs
  obtain ⟨b, hb, hhead⟩ := head_of_parenthesized hs hparens
  obtain ⟨hlead, hword⟩ := split_unique hhead (hedge ▸ hno) hw hb
  exact ⟨hlead, hword ▸ hname⟩

/-- A keyword that only blanks and stars follow is the end of the last word. -/
theorem word_of_keyword {b : List Char} (h : e.head = (y ++ keyword) ++ b)
    (hb : ∀ c ∈ b, isBlank c = true ∨ c = '*') : ∃ z, y = e.lead ++ z ∧ e.word = z ++ keyword := by
  have hother (c : Char) (hc : isIdentChar c = true) : (isBlank c || c == '*') = false := by
    rw [isBlank_of_isIdentChar hc, Bool.false_or, beq_eq_false_iff_ne]
    rintro rfl
    cases hc
  have hends := getLast?_any_of_all y (by decide) keyword_word hother
  obtain ⟨hlast, -⟩ := append_unique h (e.word_ends hother)
    (fun c hc => by rw [e.space_blank c hc, Bool.true_or]) hends
    (fun c hc => by simpa using hb c hc)
  rcases List.append_eq_append_iff.mp hlast with ⟨z, hy, hword⟩ | ⟨z, hlead, hkeyword⟩
  · exact ⟨z, hy, hword⟩
  · cases z with
    | nil => exact ⟨[], by simpa using hlead.symm, by simpa using hkeyword.symm⟩
    | cons a z =>
      -- the lead does not end within a word
      have hedge := e.edge
      have hin := keyword_word _ (hkeyword ▸ List.mem_append_left _ (List.getLast_mem (List.cons_ne_nil a z)))
      rw [hlead, List.getLast?_append, List.getLast?_eq_some_getLast (List.cons_ne_nil a z)] at hedge
      rw [Option.some_or, Option.any_some, hin] at hedge
      cases hedge

/-- A function without a name has its keyword at the end of the last word; one with a name has it before that
word. -/
theorem of_function {g w : List Char} {v : Cursor} (hg : ∀ c ∈ g, isBlank c = true ∨ c = '*')
    (hparens : parenthesized.Reads v t) (hw : w = [] ∨ isIdentifier w = true ∧ g ≠ [])
    (hs : e.text = y ++ (keyword ++ (g ++ (w ++ v.rest)))) :
    (w = [] ∧ ∃ z, y = e.lead ++ z ∧ e.word = z ++ keyword) ∨
      w = e.word ∧ g ≠ [] ∧ e.lead = y ++ (keyword ++ g) := by
  obtain ⟨b, hb, hhead⟩ := head_of_parenthesized (y := (y ++ (keyword ++ g)) ++ w) (by rw [hs]; simp) hparens
  rcases hw with rfl | ⟨hw, hne⟩
  · have hsplit : e.head = (y ++ keyword) ++ (g ++ b) := hhead.trans (by simp)
    refine .inl ⟨rfl, word_of_keyword hsplit fun c hc => ?_⟩
    exact (List.mem_append.mp hc).elim (hg c) fun hc => .inl (hb c hc)
  · have hother (c : Char) (hc : (isBlank c || c == '*') = true) : isIdentChar c = false := by
      rcases Bool.or_eq_true_iff.mp hc with hblank | hstar
      · exact isIdentChar_of_isBlank hblank
      · rw [eq_of_beq hstar]
        rfl
    have hedge := getLast?_any_of_all (y ++ keyword) hne (fun c hc => by simpa using hg c hc) hother
    obtain ⟨hlead, hword⟩ := split_unique hhead (List.append_assoc y .. ▸ hedge) hw hb
    exact .inr ⟨hword.symm, hne, hlead⟩

end LastParens

end Callees.Header

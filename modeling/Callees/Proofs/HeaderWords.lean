import Callees.Proofs.LastParens

namespace Callees.Text

/-- A character that is not in the first part of a text stands where that part ends, or later. -/
theorem append_cons_cases {u v x z : List Char} {a c : Char} (h : u ++ a :: v = x ++ c :: z)
    (hc : c ∉ u) : (u = x ∧ a = c) ∨ ∃ m, x = u ++ a :: m ∧ v = m ++ c :: z := by
  rcases List.append_eq_append_iff.mp h with ⟨m, hx, hright⟩ | ⟨m, hu, hright⟩
  · cases m with
    | nil => exact .inl ⟨(List.append_nil u ▸ hx).symm, (List.cons.inj hright).1⟩
    | cons b m =>
      obtain ⟨rfl, hv⟩ := List.cons.inj hright
      exact .inr ⟨m, hx, hv⟩
  · cases m with
    | nil => exact .inl ⟨hu.trans (List.append_nil x), (List.cons.inj hright).1.symm⟩
    | cons b m =>
      obtain ⟨rfl, -⟩ := List.cons.inj hright
      exact absurd (hu ▸ List.mem_append_right x List.mem_cons_self) hc

end Callees.Text

namespace Callees.Header

open Pattern Text

/-- Nothing but the characters of names, and blanks. -/
def Wordy (w : List Char) : Prop := ∀ c ∈ w, isIdentChar c = true ∨ isBlank c = true

instance : DecidablePred Wordy := fun w => List.decidableBAll _ w

theorem Wordy.not_mem {w : List Char} (h : Wordy w) {c : Char} (hc : (isIdentChar c || isBlank c) = false) :
    c ∉ w := by
  intro hmem
  rw [← Bool.not_eq_true, Bool.or_eq_true] at hc
  exact hc (h c hmem)

theorem find?_eq (preamble : List Char) : find? preamble =
    (ofShape preamble .assigned).or ((ofShape preamble .keyed).or
      ((ofShape preamble .declared).or (ofShape preamble .method))) := by
  simp only [find?, Shape.inOrder, List.findSome?_cons, List.findSome?_nil]
  cases ofShape preamble .assigned <;> cases ofShape preamble .keyed <;>
    cases ofShape preamble .declared <;> cases ofShape preamble .method <;> rfl

theorem ofShape_eq_none {preamble : List Char} {shape : Shape}
    (h : ∀ m, shape.pattern.search preamble ≠ some m) : ofShape preamble shape = none := by
  rw [ofShape, Option.eq_none_iff_forall_ne_some.mpr h]
  rfl

variable {u : List Char}

/-- Without a parenthesis, words are no header. -/
theorem Wordy.find?_eq_none {w : List Char} (hw : Wordy w) (hu : Prelude u) : find? (u ++ w) = none := by
  have hnone (shape : Shape) : ofShape (u ++ w) shape = none := by
    refine ofShape_eq_none fun m hm => ?_
    obtain ⟨y, cs, t, hs, hr, -⟩ := hu.search_reads (hw.not_mem rfl) (hw.not_mem rfl) hm
    have hsign : shape.sign ∉ w := hw.not_mem (by cases shape <;> rfl)
    exact hsign (hs ▸ List.mem_append_right y (shape.demands_sign.mem_rest hr))
  simp only [find?_eq, hnone, Option.or_self]

/-- Words, and behind the last of them a pair of parentheses. -/
structure Called where
  lead : List Char
  word : List Char
  space : List Char
  inner : List Char
  gap : List Char
  wordy : Wordy lead
  edge : lead.getLast?.any isIdentChar = false
  identifier : isIdentifier word = true
  space_blank : Blank space
  inner_flat : Flat inner
  gap_blank : Blank gap

namespace Called

def words (e : Called) : List Char := (e.lead ++ e.word) ++ e.space

def behind (e : Called) : List Char := e.inner ++ ')' :: e.gap

def text (e : Called) : List Char := e.words ++ '(' :: e.behind

/-- What follows the last word. -/
def tail (e : Called) : List Char := e.space ++ '(' :: e.behind

variable {e : Called} {x y cs : List Char}

theorem words_wordy (e : Called) : Wordy e.words := by
  simp only [Wordy, words, List.mem_append, or_imp, forall_and]
  exact ⟨⟨e.wordy, fun c hc => .inl (isIdentifier_all e.identifier c hc)⟩,
    fun c hc => .inr (e.space_blank c hc)⟩

theorem paren_not_behind (e : Called) : '(' ∉ e.behind := by
  simp only [behind, List.mem_append, List.mem_cons, not_or]
  exact ⟨fun h => e.inner_flat _ h (by simp), by decide, fun h => by cases e.gap_blank _ h⟩

theorem not_values {c : Char} (hc : (isIdentChar c || isBlank c) = false) (hne : '(' ≠ c)
    (h : e.text = y ++ cs) : ¬ Values c cs := by
  rintro ⟨u, v, b, rfl, -, hb, hends⟩
  rw [text, ← List.append_assoc] at h
  rcases append_cons_cases h (e.words_wordy.not_mem hc) with ⟨-, heq⟩ | ⟨m, -, hbehind⟩
  · exact hne heq
  · rcases hends with hparen | ⟨z, rfl⟩
    · exact e.paren_not_behind (hbehind ▸ by simp [hparen])
    · -- the text would end both with a closing parenthesis and with an arrow
      have hlast : e.inner ++ ')' :: e.gap = (m ++ c :: z) ++ '>' :: b := by
        simpa [behind] using hbehind
      cases (last_unique hlast rfl e.gap_blank rfl hb).2

/-- The words and the parentheses, whatever the words are. -/
def anyWords (e : Called) : LastParens where
  lead := e.lead
  word := e.word
  space := e.space
  inner := e.inner
  gap := e.gap
  edge := e.edge
  identifier := e.identifier
  space_blank := e.space_blank
  inner_matched := .plain (fun h => e.inner_flat _ h (by simp)) fun h => e.inner_flat _ h (by simp)
  gap_blank := e.gap_blank

theorem of_method {s t : Cursor} (hs : e.text = y ++ s.rest)
    (hedge : s.before.any isIdentChar = y.getLast?.any isIdentChar)
    (h : Shape.method.pattern.Reads s t) :
    e.lead = y ∧ t.name = some (s.offset, s.offset + e.word.length) :=
  LastParens.of_method (e := e.anyWords) hs hedge h

/-- A declaration without a name has the keyword at the end of the last word; one with a name has it
before that word. -/
theorem of_declared {s t : Cursor} (hs : e.text = y ++ s.rest) (h : Shape.declared.pattern.Reads s t) :
    (t.name = s.name ∧ ∃ z, y = e.lead ++ z ∧ e.word = z ++ keyword) ∨
    ∃ g, g ≠ [] ∧ Blank g ∧ e.lead = y ++ (keyword ++ g) ∧
      t.name = some (s.offset + (keyword ++ g).length,
        s.offset + (keyword ++ g).length + e.word.length) := by
  obtain ⟨g, v, hg, hparens, ⟨hrest, hname⟩ | ⟨w, hw, hne, hrest, hname⟩⟩ := declared_reads h
  · rw [hrest] at hs
    rcases LastParens.of_function (e := e.anyWords) (w := []) hg hparens (.inl rfl) hs with ⟨-, hword⟩ | ⟨hnil, -⟩
    · exact .inl ⟨hname, hword⟩
    · exact absurd hnil.symm (isIdentifier_ne_nil e.identifier)
  · rw [hrest] at hs
    rcases LastParens.of_function (e := e.anyWords) hg hparens (.inr ⟨hw, hne⟩) hs with ⟨rfl, -⟩ | ⟨rfl, -, hlead⟩
    · cases hw
    · refine .inr ⟨g, hne, fun c hc => (hg c hc).resolve_right ?_, hlead, hname⟩
      -- no word is a star
      rintro rfl
      have hmem : '*' ∈ e.lead := (show e.lead = _ from hlead) ▸ by simp [hc]
      exact e.wordy.not_mem rfl hmem

theorem text_eq (e : Called) : e.text = e.lead ++ (e.word ++ e.tail) := by
  simp [text, words, tail]

theorem flat (e : Called) {c : Char} (hc : c ∈ ['{', '}']) : c ∉ e.text := by
  have hplain : (isIdentChar c || isBlank c) = false ∧ c ≠ '(' ∧ c ≠ ')' := by
    simp only [List.mem_cons, List.not_mem_nil, or_false] at hc
    rcases hc with rfl | rfl <;> decide
  obtain ⟨hwordy, hopen, hclose⟩ := hplain
  simp only [text, behind, List.mem_append, List.mem_cons, not_or]
  refine ⟨e.words_wordy.not_mem hwordy, hopen, fun h => e.inner_flat c h ?_, hclose, fun h => ?_⟩
  · exact List.mem_cons_of_mem _ (List.mem_cons_of_mem _ hc)
  · rw [e.gap_blank c h, Bool.or_true] at hwordy
    cases hwordy

/-- Where a shape fits a header of this form. -/
theorem search_reads (e : Called) (hu : Prelude u) {shape : Shape} {m : Match}
    (h : shape.pattern.search (u ++ e.text) = some m) :
    ∃ y cs t, e.text = y ++ cs ∧
      shape.pattern.Reads ⟨(u ++ y).getLast?, (u ++ y).length, cs, none⟩ t ∧
      m = ⟨(u ++ y).length, t.offset, t.name⟩ :=
  hu.search_reads (e.flat (by simp)) (e.flat (by simp)) h

theorem ofShape_valued (e : Called) (hu : Prelude u) {shape : Shape}
    (hshape : shape = .assigned ∨ shape = .keyed) : ofShape (u ++ e.text) shape = none := by
  refine ofShape_eq_none fun m hm => ?_
  obtain ⟨y, cs, t, hs, hr, -⟩ := e.search_reads hu hm
  have hvalues := valued_reads hshape hr
  rcases hshape with rfl | rfl <;> exact not_values rfl (by decide) hs hvalues

theorem fits_tail {s : Cursor} (e : Called) (hs : s.rest = e.tail) :
    ∃ t, parenthesized.Reads s t :=
  parenthesized_spells e.space_blank e.inner_flat e.gap_blank hs

/-- A word with parentheses has the shape of a method. -/
theorem fits_method {s : Cursor} (e : Called) (hedge : s.before.any isIdentChar = false)
    (hs : s.rest = e.word ++ e.tail) : ∃ t, Shape.method.pattern.Reads s t := by
  have hname : Pattern.identifier.Reads s (s.past e.word e.tail) :=
    identifier_reads.mpr ⟨hedge, e.word, e.identifier, hs, rfl⟩
  obtain ⟨t, ht⟩ := e.fits_tail (s := ⟨_, _, e.tail, some _⟩) rfl
  exact ⟨t, .next (.named hname) ht⟩

theorem fits_unnamed {s : Cursor} (e : Called) (hs : s.rest = keyword ++ e.tail) :
    ∃ t, Shape.declared.pattern.Reads s t := by
  have hkeyword : functionWord.Reads s (s.past keyword e.tail) := (functionWord_spells s _).mpr
    ⟨keyword, ⟨[], [], [], blank_nil, .inr rfl, blank_nil, rfl⟩, hs, rfl⟩
  obtain ⟨t, ht⟩ := e.fits_tail (s := s.past keyword e.tail) rfl
  exact ⟨t, .next hkeyword (.next (.right _ (.nothing _)) ht)⟩

theorem fits_declared {s : Cursor} (e : Called) {g : List Char} (hne : g ≠ [])
    (hg : Blank g)
    (hs : s.rest = keyword ++ g ++ (e.word ++ e.tail)) :
    ∃ t, Shape.declared.pattern.Reads s t := by
  have hkeyword : functionWord.Reads s (s.past (keyword ++ g) (e.word ++ e.tail)) :=
    (functionWord_spells s _).mpr ⟨keyword ++ g, ⟨g, [], [], hg, .inr rfl, blank_nil, by simp⟩, hs, rfl⟩
  have hedge : (s.past (keyword ++ g) (e.word ++ e.tail)).before.any isIdentChar = false := by
    have hlast := getLast?_any_of_all keyword hne hg fun _ => isIdentChar_of_isBlank
    cases hc : (keyword ++ g).getLast? with
    | none => exact absurd (List.getLast?_eq_none_iff.mp hc) (by simp [hne])
    | some c =>
      simp only [Cursor.past, hc, Option.some_or]
      rw [hc] at hlast
      exact hlast
  have hname : Pattern.identifier.Reads _ ((s.past (keyword ++ g) (e.word ++ e.tail)).past e.word e.tail) :=
    identifier_reads.mpr ⟨hedge, e.word, e.identifier, rfl, rfl⟩
  obtain ⟨t, ht⟩ := e.fits_tail (s := ⟨_, _, e.tail, some _⟩) rfl
  exact ⟨t, .next hkeyword (.next (.left _ (.named hname)) ht)⟩

/-- The name that a match reports, where it is known which part of the text it is. -/
theorem ofMatch_name {start stop : Nat} {a b w : List Char} :
    ofMatch (a ++ (w ++ b)) ⟨start, stop, some (a.length, a.length + w.length)⟩ =
      ⟨start, some (String.ofList w)⟩ := by
  simp [ofMatch]

theorem ofShape_method (e : Called) (hu : Prelude u) : ofShape (u ++ e.text) .method =
    if notMethods.contains (String.ofList e.word) then none
    else some ⟨(u ++ e.lead).length, some (String.ofList e.word)⟩ := by
  have htext : u ++ e.text = (u ++ e.lead) ++ (e.word ++ e.tail) := by
    rw [e.text_eq, List.append_assoc]
  obtain ⟨t, ht⟩ := e.fits_method (s := ⟨(u ++ e.lead).getLast?, (u ++ e.lead).length, _, none⟩)
    ((hu.edge e.lead).trans e.edge) rfl
  rw [← Cursor.at_append, ← htext] at ht
  obtain ⟨m, hm, -⟩ := search_of_reads (by simp [htext]) ht
  obtain ⟨y, cs, t, hs, hr, hmt⟩ := e.search_reads hu hm
  obtain ⟨rfl, hname⟩ := of_method hs (hu.edge y) hr
  rw [hname] at hmt
  rw [ofShape, hm, hmt, htext, Option.map_some, ofMatch_name, Option.filter_some]
  change (if (!notMethods.contains (String.ofList e.word)) = true then _ else none) = _
  cases notMethods.contains (String.ofList e.word) <;> rfl

/-- No function is declared by the words before the last one. -/
def Undeclared (e : Called) : Prop :=
  ∀ y g, g ≠ [] → Blank g → e.lead ≠ y ++ (keyword ++ g)

theorem ofShape_declared (e : Called) (hu : Prelude u) (hundeclared : e.Undeclared) :
    ofShape (u ++ e.text) .declared = if keyword <:+ e.word then
      some ⟨(u ++ e.lead).length + (e.word.length - keyword.length), none⟩ else none := by
  split
  · next hsuffix =>
    obtain ⟨z, hz⟩ := hsuffix
    have htext : u ++ e.text = (u ++ (e.lead ++ z)) ++ (keyword ++ e.tail) := by
      simp [e.text_eq, ← hz]
    obtain ⟨t, ht⟩ := e.fits_unnamed (s := .at_ (u ++ e.text) (u ++ (e.lead ++ z)).length)
      (by rw [htext, Cursor.at_append])
    obtain ⟨m, hm, -⟩ := search_of_reads (by simp [htext]) ht
    obtain ⟨y, cs, t, hs, hr, hmt⟩ := e.search_reads hu hm
    rcases of_declared hs hr with ⟨hname, z', hy, hz'⟩ | ⟨g, hne, hg, hlead, -⟩
    · have hstart : (u ++ y).length = (u ++ e.lead).length + (e.word.length - keyword.length) := by
        simp only [hy, hz', List.length_append]
        omega
      rw [ofShape, hm, hmt, hname, ← hstart]
      rfl
    · exact absurd hlead (hundeclared y g hne hg)
  · next hsuffix =>
    refine ofShape_eq_none fun m hm => ?_
    obtain ⟨y, cs, t, hs, hr, -⟩ := e.search_reads hu hm
    rcases of_declared hs hr with ⟨-, z, -, hz⟩ | ⟨g, hne, hg, hlead, -⟩
    · exact hsuffix ⟨z, hz.symm⟩
    · exact hundeclared y g hne hg hlead

/-- A word before parentheses names a method. If it ends with the keyword, it rather declares a function
without a name, and some words name nothing. -/
theorem find?_called (e : Called) (hu : Prelude u) (hundeclared : e.Undeclared) :
    find? (u ++ e.text) =
      if keyword <:+ e.word then
        some ⟨(u ++ e.lead).length + (e.word.length - keyword.length), none⟩
      else if notMethods.contains (String.ofList e.word) then none
      else some ⟨(u ++ e.lead).length, some (String.ofList e.word)⟩ := by
  rw [find?_eq, e.ofShape_valued hu (.inl rfl), e.ofShape_valued hu (.inr rfl),
    e.ofShape_declared hu hundeclared, e.ofShape_method hu, Option.none_or, Option.none_or]
  split
  · rfl
  · rw [Option.none_or]

theorem find?_name (e : Called) (hu : Prelude u) (hundeclared : e.Undeclared) :
    (find? (u ++ e.text)).map Found.name =
      if keyword <:+ e.word then some none
      else if notMethods.contains (String.ofList e.word) then none
      else some (some (String.ofList e.word)) := by
  rw [e.find?_called hu hundeclared]
  split
  · rfl
  · split <;> rfl

/-- A declaration that is all of the text. -/
theorem find?_declared (e : Called) {g : List Char} (hne : g ≠ []) (hg : Blank g)
    (hlead : e.lead = keyword ++ g) : find? e.text = some ⟨0, some (String.ofList e.word)⟩ := by
  have htext : e.text = e.lead ++ (e.word ++ e.tail) := e.text_eq
  obtain ⟨t, ht⟩ := e.fits_declared (s := .at_ e.text 0) hne hg (by rw [htext, hlead]; rfl)
  obtain ⟨m, hm, hfirst⟩ := search_of_reads (Nat.zero_le _) ht
  obtain ⟨y, cs, t, hs, hr, hmt⟩ := e.search_reads .nil hm
  rw [hmt] at hfirst
  obtain rfl := List.length_eq_zero_iff.mp (Nat.le_zero.mp hfirst)
  rcases of_declared hs hr with ⟨-, z, hz, -⟩ | ⟨g', -, -, hlead', hname⟩
  · have hnil := (List.append_eq_nil_iff.mp hz.symm).1
    rw [hlead] at hnil
    exact absurd (List.append_eq_nil_iff.mp hnil).2 hne
  · rw [List.nil_append] at hlead'
    rw [← hlead', List.append_nil, List.length_nil, Nat.zero_add] at hname
    rw [hname] at hmt
    have hassigned := e.ofShape_valued .nil (.inl rfl)
    have hkeyed := e.ofShape_valued .nil (.inr rfl)
    rw [List.nil_append] at hassigned hkeyed
    rw [find?_eq, hassigned, hkeyed, ofShape, hm, hmt, htext, Option.map_some, ofMatch_name]
    rfl

end Called

end Callees.Header

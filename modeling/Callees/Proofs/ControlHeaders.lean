import Callees.Proofs.HeaderWords

namespace Callees.Pattern

variable {p q : Pattern} {text : List Char}

/-- The pattern matches at no place of the text. -/
def Unread (p : Pattern) (text : List Char) : Prop := ∀ s t, s.rest <:+ text → ¬ p.Reads s t

theorem Unread.second (p : Pattern) (h : q.Unread text) : (next p q).Unread text := by
  rintro s u hs (_ | _)
  rename_i t first second
  obtain ⟨w, hw, -⟩ := first.takes
  have hlater : t.rest <:+ s.rest := ⟨w, hw.symm⟩
  exact h t u (hlater.trans hs) second

theorem Unread.search (h : p.Unread text) (m : Match) : p.search text ≠ some m := by
  intro hm
  obtain ⟨t, hr, -⟩ := matchIn_reads (search_eq_some hm).1
  exact h _ t (List.drop_suffix ..) hr

end Callees.Pattern

namespace Callees.Header

open Pattern Text

/-- Between the keyword and the end of the text, a function in a value looks like one that is declared. -/
theorem functionExpression_ends {s t u : Cursor} (h : functionExpression.Reads s t)
    (hends : (all [blanks, atEnd]).Reads t u) :
    (next functionWord (next (optional identifier) parenthesized)).Reads s u := by
  cases h with
  | next word rest =>
    cases rest with
    | next name rest =>
      cases rest with
      | next first rest =>
        cases rest with
        | next generic rest =>
          cases rest with
          | next second rest =>
            cases rest with
            | next list returned =>
              exact .next word (.next name (.next first (.next generic (.next second (.next list
                (.next returned hends))))))

namespace LastParens

variable {e : LastParens}

/-- Neither the last word nor the one before it declares a function. -/
structure Undeclared (e : LastParens) : Prop where
  word : ¬ keyword <:+ e.word
  lead : ∀ y g, (∀ c ∈ g, isBlank c = true ∨ c = '*') → e.lead ≠ y ++ (keyword ++ g)

theorem function_unread (hu : e.Undeclared) {q : Pattern} (hq : ∀ s t, q.Reads s t →
      s.before.any isIdentChar = false ∧ ∃ w, isIdentifier w = true ∧ s.rest = w ++ t.rest) :
    (next functionWord (next (optional q) parenthesized)).Unread e.text := by
  rintro s t ⟨y, hy⟩ h
  obtain ⟨g, u, v, hg, hs, hpast, hname, hparens⟩ := function_reads h
  obtain ⟨w, hw, hv⟩ : ∃ w, (w = [] ∨ isIdentifier w = true ∧ g ≠ []) ∧ u.rest = w ++ v.rest := by
    rcases hname with rfl | hname
    · exact ⟨[], .inl rfl, rfl⟩
    · obtain ⟨hedge, w, hw, hu'⟩ := hq u v hname
      exact ⟨w, .inr ⟨hw, ne_nil_of_edge hpast hedge⟩, hu'⟩
  rw [hs, hv] at hy
  rcases of_function hg hparens hw hy.symm with ⟨-, z, -, hword⟩ | ⟨-, -, hlead⟩
  · exact hu.word ⟨z, hword.symm⟩
  · exact hu.lead y g hg hlead

/-- An arrow ends with another sign than parentheses do. -/
theorem arrow_unread (e : LastParens) : (all [arrow, blanks, atEnd]).Unread e.text := by
  rintro s t ⟨y, hy⟩ h
  cases h with
  | next first rest =>
    obtain ⟨z, hz⟩ := arrow_ends first
    cases rest with
    | next space last =>
      obtain ⟨b, hb, hgap, -⟩ := (spells_blanks _ _).mp space
      cases last with
      | atEnd edge =>
        have hsplit : (y ++ z) ++ '>' :: b = (e.head ++ '(' :: e.inner) ++ ')' :: e.gap := by
          rw [hz, hgap, edge] at hy
          simpa [text] using hy
        cases (last_unique hsplit rfl hb rfl e.gap_blank).2

theorem value_unread (hu : e.Undeclared) : (all [functionValue, blanks, atEnd]).Unread e.text := by
  intro s t hs h
  cases h with
  | next value hends =>
    cases value with
    | @next _ _ _ u _ async value =>
      obtain ⟨w, hw, -⟩ := async.takes
      have hlater : u.rest <:+ s.rest := ⟨w, hw.symm⟩
      cases value with
      | left _ function =>
        refine function_unread hu (fun s t h => ?_) u t (hlater.trans hs) (functionExpression_ends function hends)
        obtain ⟨hedge, w, hw, hrest, -⟩ := identifier_reads.mp h
        exact ⟨hedge, w, hw, hrest⟩
      | right _ arrow => exact e.arrow_unread u t (hlater.trans hs) (.next arrow hends)

/-- Only a method can end with the parentheses. -/
theorem shape_unread (hu : e.Undeclared) {shape : Shape} (hshape : shape ≠ .method) :
    shape.pattern.Unread e.text := by
  have hvalue := value_unread hu
  cases shape with
  | assigned => exact .second _ (.second _ (.second _ (.second _ (.second _ hvalue))))
  | keyed => exact .second _ (.second _ (.second _ (.second _ hvalue)))
  | declared =>
    refine function_unread (q := named Pattern.identifier) hu fun s t h => ?_
    obtain ⟨hedge, w, hw, hrest, -⟩ := named_identifier_reads h
    exact ⟨hedge, w, hw, hrest⟩
  | method => exact absurd rfl hshape

/-- A method would be named by the last word. -/
theorem ofShape_method (e : LastParens) (hword : notMethods.contains (String.ofList e.word) = true) :
    ofShape e.text .method = none := by
  cases hm : Shape.method.pattern.search e.text with
  | none => rw [ofShape, hm]; rfl
  | some m =>
    obtain ⟨hfound, hle⟩ := search_eq_some hm
    obtain ⟨t, ht, hmt⟩ := matchIn_reads hfound
    obtain ⟨hlead, hname⟩ := of_method (y := e.text.take m.start) (List.take_append_drop ..).symm rfl ht
    have hstart : m.start = e.lead.length := by rw [hlead, List.length_take, Nat.min_eq_left hle]
    have htext : e.text = e.lead ++ (e.word ++ (e.space ++ '(' :: (e.inner ++ ')' :: e.gap))) := by
      simp [text, head]
    have hmatch : ofMatch e.text m = ⟨m.start, some (String.ofList e.word)⟩ := by
      rw [hmt, hname, Cursor.at_, hstart, htext, Called.ofMatch_name]
    rw [ofShape, hm, Option.map_some, hmatch, Option.filter_some, Option.any_some, hword]
    rfl

theorem find?_eq_none (hu : e.Undeclared) (hword : notMethods.contains (String.ofList e.word) = true) :
    find? e.text = none := by
  have hnone {shape : Shape} (hshape : shape ≠ .method) : ofShape e.text shape = none :=
    ofShape_eq_none (shape_unread hu hshape).search
  rw [find?_eq, hnone (by decide), hnone (by decide), hnone (by decide), e.ofShape_method hword]
  rfl

end LastParens

/-- Nothing, or code up to the end of a statement or to a brace, and blanks. -/
def StartsStatement (lead : List Char) : Prop :=
  lead = [] ∨ ∃ code sign b, lead = code ++ sign :: b ∧ sign ∈ [';', '{', '}'] ∧ Blank b

namespace StartsStatement

variable {lead : List Char}

theorem edge (h : StartsStatement lead) : lead.getLast?.any isIdentChar = false := by
  rcases h with rfl | ⟨code, sign, b, rfl, hsign, hb⟩
  · rfl
  · have hwordless : ∀ c ∈ sign :: b, isIdentChar c = false := by
      refine List.forall_mem_cons.mpr ⟨?_, fun c hc => isIdentChar_of_isBlank (hb c hc)⟩
      simp only [List.mem_cons, List.not_mem_nil, or_false] at hsign
      rcases hsign with rfl | rfl | rfl <;> rfl
    refine getLast?_any_of_all code (p := fun c => !isIdentChar c) (List.cons_ne_nil sign b) ?_ ?_
    · intro c hc
      rw [hwordless c hc]
      rfl
    · intro c hc
      exact Bool.not_eq_true' _ ▸ hc

/-- No keyword stands between the sign and the end. -/
theorem undeclared (h : StartsStatement lead) {y g : List Char}
    (hg : ∀ c ∈ g, isBlank c = true ∨ c = '*') : lead ≠ y ++ (keyword ++ g) := by
  intro heq
  rcases h with rfl | ⟨code, sign, b, rfl, hsign, hb⟩
  · have hnil := (List.append_eq_nil_iff.mp (List.append_eq_nil_iff.mp heq.symm).2).1
    exact absurd hnil (by decide)
  · have hkeyword : keyword = "functio".toList ++ ['n'] := by decide
    have hsplit : code ++ sign :: b = (y ++ "functio".toList) ++ 'n' :: g := by
      simp only [heq, hkeyword, List.append_assoc, List.cons_append, List.nil_append]
    have hother : (isBlank sign || sign == '*') = false ∧ sign ≠ 'n' := by
      simp only [List.mem_cons, List.not_mem_nil, or_false] at hsign
      rcases hsign with rfl | rfl | rfl <;> decide
    refine hother.2 (last_unique (p := fun c => isBlank c || c == '*') hsplit hother.1 ?_ rfl ?_).2
    · intro c hc
      simp only [hb c hc, Bool.true_or]
    · intro c hc
      simpa using hg c hc

end StartsStatement

/-- No word on the list, but for the keyword itself, is taken for a function together with the condition in
parentheses behind it, at whatever place in the code or in the condition a search may begin. -/
theorem guarded_unheaded {lead space condition gap : List Char} {word : String}
    (hlead : StartsStatement lead) (hword : word ∈ notMethods) (hother : word ≠ "function")
    (hspace : Blank space) (hcondition : Matched condition) (hgap : Blank gap) :
    find? (lead ++ word.toList ++ space ++ '(' :: (condition ++ ')' :: gap)) = none := by
  have hlisted : ∀ word ∈ notMethods, word ≠ "function" →
      isIdentifier word.toList = true ∧ ¬ keyword <:+ word.toList := by decide +kernel
  obtain ⟨hidentifier, hsuffix⟩ := hlisted word hword hother
  let e : LastParens := ⟨lead, word.toList, space, condition, gap, hlead.edge, hidentifier, hspace, hcondition,
    hgap⟩
  have hundeclared : e.Undeclared := ⟨hsuffix, fun _ _ => hlead.undeclared⟩
  exact e.find?_eq_none hundeclared (by rw [String.ofList_toList]; exact List.contains_iff_mem.mpr hword)

/-- Calls, an arrow and a type are in the condition, and a function is declared before it. -/
theorem guarded_unheaded_nested :
    StartsStatement "function next(a) \x7b return a; \x7d\n".toList ∧
      Matched "next((a: T) => (list((1)))) != of(b)".toList ∧
      find? ("function next(a) \x7b return a; \x7d\n".toList ++ "while".toList ++ [' '] ++
        '(' :: ("next((a: T) => (list((1)))) != of(b)".toList ++ ')' :: "\r\n".toList)) = none := by
  have hlead : StartsStatement "function next(a) \x7b return a; \x7d\n".toList :=
    .inr ⟨"function next(a) \x7b return a; ".toList, '}', ['\n'], by decide, by decide, by decide⟩
  have hcondition : Matched "next((a: T) => (list((1)))) != of(b)".toList := by decide +kernel
  exact ⟨hlead, hcondition, guarded_unheaded hlead (by decide) (by decide) (by decide) hcondition (by decide)⟩

end Callees.Header

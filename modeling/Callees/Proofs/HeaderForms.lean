import Callees.Proofs.HeaderWords

namespace Callees.Pattern

variable {p q : Pattern} {u v w : List Char}

/-- The pattern can take the text, wherever that stands and whatever follows it. -/
def Takes (p : Pattern) (w : List Char) : Prop :=
  ∀ s rest, s.rest = w ++ rest → p.Reads s (s.past w rest)

/-- The pattern can take the text where nothing follows it. -/
def Closes (p : Pattern) (w : List Char) : Prop := ∀ s, s.rest = w → ∃ t, p.Reads s t

theorem Spells.takes {L : List Char → Prop} (h : p.Spells L) (hw : L w) : p.Takes w :=
  fun s rest hs => (h s (s.past w rest)).mpr ⟨w, hw, hs, rfl⟩

theorem Reads.mem_of_rest {s t : Cursor} {c : Char} (h : p.Reads s t) (hc : c ∈ t.rest) :
    c ∈ s.rest := by
  obtain ⟨w, hw, -⟩ := h.takes
  rw [hw]
  exact List.mem_append_right w hc

namespace Takes

theorem next (hp : p.Takes u) (hq : q.Takes v) : (next p q).Takes (u ++ v) := by
  intro s rest hs
  have hsecond := hq (s.past u (v ++ rest)) rest rfl
  rw [Cursor.past_past] at hsecond
  exact .next (hp s (v ++ rest) (by rw [hs, List.append_assoc])) hsecond

theorem left (q : Pattern) (h : p.Takes w) : (either p q).Takes w :=
  fun s rest hs => .left q (h s rest hs)

theorem right (p : Pattern) (h : q.Takes w) : (either p q).Takes w :=
  fun s rest hs => .right p (h s rest hs)

theorem absent (p : Pattern) : (optional p).Takes [] := .right p (spells_nothing.takes rfl)

theorem skip (hp : p.Takes []) (hq : q.Takes w) : (Pattern.next p q).Takes w := hp.next hq

end Takes

namespace Closes

theorem next (hp : p.Takes u) (hq : q.Closes v) : (next p q).Closes (u ++ v) := by
  intro s hs
  obtain ⟨t, ht⟩ := hq (s.past u v) rfl
  exact ⟨t, .next (hp s v hs) ht⟩

theorem skip (hp : p.Takes []) (hq : q.Closes w) : (Pattern.next p q).Closes w := .next hp hq

end Closes

end Callees.Pattern

namespace Callees.Header

open Pattern Text

/-- A list of parameters as it is written. -/
def parens (args : List Char) : List Char := '(' :: (args ++ [')'])

/-- The ways to write the header of a function that has a name. -/
inductive Form
  | declared
  | assigned
  | assignedArrow
  | assignedAsync
  | keyed
  | method
  deriving Repr, DecidableEq

namespace Form

/-- What is written before the name, between the name and the parameters, and behind those. -/
def parts : Form → String × String × String
  | declared => ("function ", "", "")
  | assigned => ("", " = function ", "")
  | assignedArrow => ("", " = ", " =>")
  | assignedAsync => ("", " = async ", " =>")
  | keyed => ("", ": ", " =>")
  | method => ("", "", "")

def text (form : Form) (name args : List Char) : List Char :=
  form.parts.1.toList ++ (name ++ (form.parts.2.1.toList ++ (parens args ++ form.parts.2.2.toList)))

end Form

variable {name args gap : List Char}

theorem params_takes (hargs : Flat args) : params.Takes (parens args) :=
  fun s rest hs => params_spell hargs (by rw [hs]; simp [parens, Cursor.past]) rfl

theorem space_blank : Blank [' '] := by decide

theorem blanks_takes {b : List Char} (hb : Blank b) : blanks.Takes b := spells_blanks.takes hb

/-- What may stand between parameters and the brace does not have to. -/
theorem bare_params_takes (hargs : Flat args) :
    (all [generics, blanks, params, returnType]).Takes (parens args) := by
  have hparams := (params_takes hargs).next (.absent _ : returnType.Takes [])
  rw [List.append_nil] at hparams
  exact .skip (.absent _) (.skip (blanks_takes blank_nil) hparams)

theorem functionExpression_takes (hargs : Flat args) :
    functionExpression.Takes ("function ".toList ++ parens args) := by
  have hword : functionWord.Takes "function ".toList :=
    functionWord_spells.takes ⟨[' '], [], [], space_blank, .inr rfl, blank_nil, rfl⟩
  exact hword.next (.skip (.absent _) (.skip (blanks_takes blank_nil) (bare_params_takes hargs)))

theorem arrow_takes (hargs : Flat args) : arrow.Takes (parens args ++ " =>".toList) :=
  .next (.left _ (bare_params_takes hargs))
    ((blanks_takes space_blank).next ((spells_text ['=', '>']).takes rfl))

theorem function_takes (hargs : Flat args) :
    functionValue.Takes ("function ".toList ++ parens args) :=
  .skip (.absent _) (.left _ (functionExpression_takes hargs))

theorem arrowValue_takes (hargs : Flat args) : functionValue.Takes (parens args ++ " =>".toList) :=
  .skip (.absent _) (.right _ (arrow_takes hargs))

theorem asyncValue_takes (hargs : Flat args) :
    functionValue.Takes ("async ".toList ++ (parens args ++ " =>".toList)) := by
  have hasync : (Pattern.next (word "async") blanks1).Takes "async ".toList :=
    ((spells_text "async".toList).takes rfl).next
      (((spells_one isBlank).takes ⟨' ', rfl, rfl⟩).next (blanks_takes blank_nil))
  exact .next (.left _ hasync) (.right _ (arrow_takes hargs))

theorem ending_closes (hgap : Blank gap) : (all [blanks, atEnd]).Closes gap := by
  intro s hs
  exact ⟨s.past gap [], .next (blanks_takes hgap s [] (by rw [hs, List.append_nil])) (.atEnd rfl)⟩

/-- A name and what can follow it make a header at the start of the text. -/
theorem named_closes {p : Pattern} {tail : List Char} (hname : isIdentifier name = true)
    (hp : p.Closes tail) :
    ∃ t, (Pattern.next (named identifier) p).Reads (.at_ (name ++ tail) 0) t := by
  have hfirst : identifier.Reads (.at_ (name ++ tail) 0) (Cursor.past (.at_ (name ++ tail) 0) name tail) :=
    identifier_reads.mpr ⟨rfl, name, hname, rfl, rfl⟩
  obtain ⟨t, ht⟩ := hp ⟨_, _, tail, some _⟩ rfl
  exact ⟨t, .next (.named hfirst) ht⟩

/-- Everything behind the name in `assigned`. -/
def assignment : Pattern :=
  all [blanks, optional (Pattern.next (char ':') (many1 (noneOf ['=', ';', '{', '}', '(', ')']))),
    char '=', blanks, functionValue, blanks, atEnd]

theorem assigned_fits {value : List Char} (hname : isIdentifier name = true)
    (hvalue : functionValue.Takes value) (hgap : Blank gap) :
    ∃ t, Shape.assigned.pattern.Reads (.at_ (name ++ (" = ".toList ++ (value ++ gap))) 0) t := by
  have hrest : assignment.Closes ([' '] ++ (['='] ++ ([' '] ++ (value ++ gap)))) :=
    .next (blanks_takes space_blank) (.skip (.absent _) (.next ((spells_char '=').takes rfl)
      (.next (blanks_takes space_blank) (.next hvalue (ending_closes hgap)))))
  exact named_closes hname hrest

theorem keyed_fits {value : List Char} (hname : isIdentifier name = true)
    (hvalue : functionValue.Takes value) (hgap : Blank gap) :
    ∃ t, Shape.keyed.pattern.Reads (.at_ (name ++ (": ".toList ++ (value ++ gap))) 0) t := by
  have hrest := Closes.skip (blanks_takes blank_nil) (.next ((spells_char ':').takes rfl)
    (.next (blanks_takes space_blank) (.next hvalue (ending_closes hgap))))
  exact named_closes hname hrest

/-- Blanks and a sign end a name. -/
theorem named_reads {q : Pattern} (hq : ∀ s t, q.Reads s t → s.rest.head?.any isIdentChar = false)
    (hnames : q.names = false) {s t : Cursor}
    (h : (Pattern.next (named identifier) (Pattern.next blanks q)).Reads s t) :
    ∃ w cs, isIdentifier w = true ∧ s.rest = w ++ cs ∧ cs.head?.any isIdentChar = false ∧
      t.name = some (s.offset, s.offset + w.length) := by
  cases h with
  | @next _ _ _ u _ name rest =>
    obtain ⟨-, w, hw, hs, hname⟩ := named_identifier_reads name
    refine ⟨w, u.rest, hw, hs, ?_, (rest.name_eq hnames).trans hname⟩
    cases rest with
    | next space rest =>
      obtain ⟨b, hb, hu, -⟩ := (spells_blanks u _).mp space
      rw [hu]
      cases b with
      | nil => exact hq _ _ rest
      | cons c b => exact isIdentChar_of_isBlank (hb c List.mem_cons_self)

theorem valued_name {shape : Shape} (hshape : shape = .assigned ∨ shape = .keyed) {s t : Cursor}
    (h : shape.pattern.Reads s t) : ∃ w cs, isIdentifier w = true ∧ s.rest = w ++ cs ∧
      cs.head?.any isIdentChar = false ∧ t.name = some (s.offset, s.offset + w.length) := by
  have hsign {c : Char} {q : Pattern} (hc : isIdentChar c = false) (s t : Cursor)
      (h : (Pattern.next (char c) q).Reads s t) : s.rest.head?.any isIdentChar = false := by
    obtain ⟨rest, hs⟩ := opens_reads h
    rw [hs]
    exact hc
  rcases hshape with rfl | rfl
  · refine named_reads (fun s t hr => ?_) rfl h
    cases hr with
    | next annotation rest =>
      cases annotation with
      | left _ annotated => exact hsign rfl _ _ annotated
      | right _ bare =>
        cases bare
        exact hsign rfl _ _ rest
  · exact named_reads (hsign rfl) rfl h

/-- A shape with a value that fits the whole text takes the name from its start. -/
theorem ofShape_fitting {shape : Shape} (hshape : shape = .assigned ∨ shape = .keyed)
    {tail : List Char} (hname : isIdentifier name = true) (htail : tail.head?.any isIdentChar = false)
    (hfits : ∃ t, shape.pattern.Reads (.at_ (name ++ tail) 0) t) :
    ofShape (name ++ tail) shape = some ⟨0, some (String.ofList name)⟩ := by
  obtain ⟨t, ht⟩ := hfits
  obtain ⟨m, hm, hfirst⟩ := search_of_reads (Nat.zero_le _) ht
  obtain ⟨u, hu, hmu⟩ := matchIn_reads (search_eq_some hm).1
  rw [Nat.le_zero.mp hfirst] at hu hmu
  obtain ⟨w, cs, hw, hs, hcs, huname⟩ := valued_name hshape hu
  obtain rfl := word_unique hs hname hw htail hcs
  rw [huname, Cursor.at_, Nat.zero_add] at hmu
  have hfound : ofMatch (name ++ tail) m = ⟨0, some (String.ofList name)⟩ := by
    have hnamed : ofMatch ([] ++ (name ++ tail)) ⟨0, u.offset, some (0, 0 + name.length)⟩ =
        ⟨0, some (String.ofList name)⟩ := Called.ofMatch_name (a := [])
    rw [Nat.zero_add, List.nil_append] at hnamed
    rw [hmu, hnamed]
  rw [ofShape, hm, Option.map_some, hfound]
  rcases hshape with rfl | rfl <;> rfl

/-- A value has parentheses, or an arrow and no parenthesis. -/
theorem value_parens {s t : Cursor} (h : (all [blanks, functionValue, blanks, atEnd]).Reads s t) :
    '(' ∈ s.rest ∨ ')' ∉ s.rest ∧ '=' ∈ s.rest := by
  have hends := h.ends rfl
  cases h with
  | next before rest =>
    cases rest with
    | next value after =>
      cases value with
      | next async value =>
        have hlater {c : Char} {u : Cursor} {p : Pattern} (hc : p.Demands c)
            (hr : p.Reads _ u) : c ∈ s.rest :=
          before.mem_of_rest (async.mem_of_rest (hc.mem_rest hr))
        cases value with
        | left _ function => exact .inl (hlater functionExpression_demands function)
        | right _ arrow =>
          cases arrow with
          | next head arrow =>
            cases head with
            | left _ list =>
              exact .inl (hlater (.second _ (.second _ (.first _ params_demands))) list)
            | right _ name =>
              have hsign : (word "=>").Demands '=' := .first _ (.char '=')
              have hbare := Reads.next before (.next (.next async (.next name arrow)) after)
              obtain ⟨w, hw, havoids⟩ := hbare.takes
              rw [hends, List.append_nil] at hw
              refine .inr ⟨hw ▸ havoids ')' rfl, ?_⟩
              exact hlater (.second _ (.second _ hsign)) (.next name arrow)

/-- What an assignment takes: a value behind the sign. -/
theorem assigned_value {s t : Cursor} (h : Shape.assigned.pattern.Reads s t) :
    ∃ u v, s.rest = u ++ '=' :: v ∧ ('(' ∈ v ∨ ')' ∉ v ∧ '=' ∈ v) := by
  cases h with
  | next name rest =>
    obtain ⟨u, hu, -⟩ := name.takes
    cases rest with
    | next space rest =>
      obtain ⟨b, hb, -⟩ := space.takes
      cases rest with
      | next annotation rest =>
        obtain ⟨w, hw, -⟩ := annotation.takes
        cases rest with
        | next sign value =>
          obtain ⟨_, rfl, hsign, -⟩ := (spells_char '=' _ _).mp sign
          refine ⟨u ++ (b ++ w), _, ?_, value_parens value⟩
          rw [hu, hb, hw, hsign]
          simp

theorem assigned_search {text : List Char} {m : Match}
    (h : Shape.assigned.pattern.search text = some m) :
    ∃ u v, text = u ++ '=' :: v ∧ ('(' ∈ v ∨ ')' ∉ v ∧ '=' ∈ v) := by
  obtain ⟨t, ht, -⟩ := matchIn_reads (search_eq_some h).1
  obtain ⟨u, v, hu, hv⟩ := assigned_value ht
  refine ⟨text.take m.start ++ u, v, ?_, hv⟩
  have hrest : text.drop m.start = u ++ '=' :: v := hu
  rw [List.append_assoc, ← hrest, List.take_append_drop]

/-- No assignment fits a header that is written with a colon. -/
theorem keyed_unassigned (hname : isIdentifier name = true) (hargs : Flat args) (hgap : Blank gap) :
    ofShape (name ++ (": ".toList ++ ((parens args ++ " =>".toList) ++ gap))) .assigned = none := by
  have hname : '=' ∉ name := fun hmem => by cases isIdentifier_all hname _ hmem
  have hargs : '(' ∉ args := fun hmem => hargs _ hmem (by simp)
  have hopen : '(' ∉ gap := fun hmem => by cases hgap _ hmem
  have hsign : '=' ∉ gap := fun hmem => by cases hgap _ hmem
  refine ofShape_eq_none fun m hm => ?_
  obtain ⟨u, v, htext, hv⟩ := assigned_search hm
  rcases hv with hparen | ⟨hclose, hmore⟩
  · -- the sign would stand before the one parenthesis that opens
    have hbefore : (name ++ [':', ' ']) ++ '(' :: (args ++ ')' :: (" =>".toList ++ gap)) =
        u ++ '=' :: v := by
      rw [← htext]
      simp [parens]
    rcases append_cons_cases hbefore (by simp [hname]) with ⟨-, heq⟩ | ⟨n, -, hbehind⟩
    · cases heq
    · have hmem : '(' ∈ args ++ ')' :: (" =>".toList ++ gap) := by
        rw [hbehind]
        simp [hparen]
      simp [hargs, hopen] at hmem
  · -- the sign would be that of the arrow, and another one would follow it
    have harrow : (name ++ (": (".toList ++ args)) ++ ')' :: (" =>".toList ++ gap) =
        u ++ '=' :: v := by
      rw [← htext]
      simp [parens]
    rcases List.append_eq_append_iff.mp harrow with ⟨n, -, hbehind⟩ | ⟨n, -, hbehind⟩
    · cases n with
      | nil => cases hbehind
      | cons c n =>
        have htail : " =>".toList ++ gap = n ++ '=' :: v := (List.cons.inj hbehind).2
        have hcount := congrArg (List.count '=') htail
        have hpos := List.count_pos_iff.mpr hmore
        rw [List.count_append, List.count_append, List.count_cons_self, List.count_eq_zero.mpr hsign,
          show " =>".toList.count '=' = 1 from rfl] at hcount
        omega
    · have hmem : ')' ∈ '=' :: v := by
        rw [hbehind]
        simp
      simp [hclose] at hmem

/-- A name with its parameters, behind some words. -/
def Called.ofName (lead : List Char) (hlead : Wordy lead) (hedge : lead.getLast?.any isIdentChar = false)
    (hname : isIdentifier name = true) (hargs : Flat args) (hgap : Blank gap) : Called where
  lead := lead
  word := name
  space := []
  inner := args
  gap := gap
  wordy := hlead
  edge := hedge
  identifier := hname
  space_blank := blank_nil
  inner_flat := hargs
  gap_blank := hgap

theorem Called.ofName_text (lead : List Char) (hlead : Wordy lead)
    (hedge : lead.getLast?.any isIdentChar = false) (hname : isIdentifier name = true)
    (hargs : Flat args) (hgap : Blank gap) :
    (ofName lead hlead hedge hname hargs hgap).text = lead ++ (name ++ (parens args ++ gap)) := by
  simp [text, words, behind, ofName, parens]

namespace Form

theorem find?_declared (hname : isIdentifier name = true) (hargs : Flat args) (hgap : Blank gap) :
    find? (declared.text name args ++ gap) = some ⟨0, some (String.ofList name)⟩ := by
  have hlead : Wordy (keyword ++ [' ']) := by decide
  have hedge : (keyword ++ [' ']).getLast?.any isIdentChar = false := rfl
  have hform : declared.text name args ++ gap =
      (Called.ofName (keyword ++ [' ']) hlead hedge hname hargs hgap).text := by
    rw [Called.ofName_text, show keyword ++ [' '] = "function ".toList from rfl]
    simp only [text, parts, String.toList_empty, List.append_nil, List.nil_append, List.append_assoc]
  rw [hform]
  exact Called.find?_declared _ (List.cons_ne_nil ' ' []) space_blank rfl

theorem find?_method (hname : isIdentifier name = true) (hargs : Flat args) (hgap : Blank gap) :
    find? (method.text name args ++ gap) =
      if keyword <:+ name then some ⟨name.length - keyword.length, none⟩
      else if notMethods.contains (String.ofList name) then none
      else some ⟨0, some (String.ofList name)⟩ := by
  have hlead : Wordy [] := nofun
  have hedge : ([] : List Char).getLast?.any isIdentChar = false := rfl
  have hform : method.text name args ++ gap =
      [] ++ (Called.ofName [] hlead hedge hname hargs hgap).text := by
    rw [Called.ofName_text]
    simp only [text, parts, String.toList_empty, List.append_nil, List.nil_append, List.append_assoc]
  have hundeclared : (Called.ofName [] hlead hedge hname hargs hgap).Undeclared :=
    fun y g hne _ h => hne (List.append_eq_nil_iff.mp (List.append_eq_nil_iff.mp h.symm).2).2
  rw [hform, Called.find?_called _ .nil hundeclared]
  simp [Called.ofName]

/-- An assignment is the first shape that is tried. -/
theorem find?_assigned {value : List Char} (hname : isIdentifier name = true)
    (hvalue : functionValue.Takes value) (hgap : Blank gap) :
    find? (name ++ (" = ".toList ++ (value ++ gap))) = some ⟨0, some (String.ofList name)⟩ := by
  have hfound := ofShape_fitting (.inl rfl) hname rfl (assigned_fits hname hvalue hgap)
  rw [find?_eq, hfound, Option.some_or]

theorem find?_keyed (hname : isIdentifier name = true) (hargs : Flat args) (hgap : Blank gap) :
    find? (name ++ (": ".toList ++ ((parens args ++ " =>".toList) ++ gap))) =
      some ⟨0, some (String.ofList name)⟩ := by
  have hfound := ofShape_fitting (.inr rfl) hname rfl (keyed_fits hname (arrowValue_takes hargs) hgap)
  rw [find?_eq, keyed_unassigned hname hargs hgap, hfound, Option.none_or, Option.some_or]

/-- Every way to write a header gives the name that is written, and the header starts where the text does.
Only a method whose name ends with the keyword is taken for a function without a name, which starts at the
keyword. -/
theorem gives_name (form : Form) (hname : isIdentifier name = true)
    (hword : String.ofList name ∉ notMethods) (hargs : Flat args) (hgap : Blank gap) :
    find? (form.text name args ++ gap) =
      if form = method ∧ keyword <:+ name then some ⟨name.length - keyword.length, none⟩
      else some ⟨0, some (String.ofList name)⟩ := by
  have htext : form.text name args ++ gap = form.parts.1.toList ++
      (name ++ (form.parts.2.1.toList ++ ((parens args ++ form.parts.2.2.toList) ++ gap))) := by
    simp only [text, List.append_assoc]
  cases form with
  | declared => exact find?_declared hname hargs hgap
  | assigned =>
    have hvalue := find?_assigned hname (function_takes hargs) hgap
    rw [List.append_assoc, ← List.append_assoc " = ".toList] at hvalue
    rw [htext]
    simp only [parts, String.toList_empty, List.append_nil, List.nil_append]
    exact hvalue
  | assignedArrow =>
    rw [htext]
    exact find?_assigned hname (arrowValue_takes hargs) hgap
  | assignedAsync =>
    have hvalue := find?_assigned hname (asyncValue_takes hargs) hgap
    rw [List.append_assoc, ← List.append_assoc " = ".toList] at hvalue
    rw [htext]
    exact hvalue
  | keyed =>
    rw [htext]
    exact find?_keyed hname hargs hgap
  | method =>
    rw [find?_method hname hargs hgap, if_neg (mt List.contains_iff_mem.mp hword)]
    simp only [true_and]

theorem gives_name_defaults : isIdentifier "load".toList = true ∧
    String.ofList "load".toList ∉ notMethods ∧ Flat "path, mode = 0".toList ∧ Blank " \n".toList ∧
    find? (keyed.text "load".toList "path, mode = 0".toList ++ " \n".toList) =
      some ⟨0, some "load"⟩ := by
  have hname : isIdentifier "load".toList = true := by decide
  have hword : String.ofList "load".toList ∉ notMethods := by decide
  have hargs : Flat "path, mode = 0".toList := by decide
  have hgap : Blank " \n".toList := by decide
  exact ⟨hname, hword, hargs, hgap, gives_name keyed hname hword hargs hgap⟩

/-- A method whose name ends with the keyword does not get its name. -/
theorem suffix_loses_name : ¬ ∀ (form : Form) (name args gap : List Char),
    isIdentifier name = true → String.ofList name ∉ notMethods → Flat args → Blank gap →
      find? (form.text name args ++ gap) = some ⟨0, some (String.ofList name)⟩ := by
  intro h
  have hfound := h method "myfunction".toList "a".toList [] (by decide) (by decide) (by decide) (by decide)
  have hstolen : find? (method.text "myfunction".toList "a".toList ++ []) = some ⟨2, none⟩ := by
    decide +kernel
  cases hstolen.symm.trans hfound

end Form

end Callees.Header

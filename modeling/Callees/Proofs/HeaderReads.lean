import Callees.Proofs.Calls
import Callees.Proofs.HeaderText

namespace Callees.Pattern

variable {p q : Pattern} {c : Char}

/-- Every text that the pattern takes has the character. -/
def Demands (p : Pattern) (c : Char) : Prop :=
  ∀ s t, p.Reads s t → ∃ w, s.rest = w ++ t.rest ∧ c ∈ w

namespace Demands

theorem char (c : Char) : (char c).Demands c := by
  intro s t h
  obtain ⟨w, rfl, hs, -⟩ := (spells_char c s t).mp h
  exact ⟨[c], hs, List.mem_singleton_self c⟩

theorem first (q : Pattern) (h : p.Demands c) : (next p q).Demands c := by
  rintro s u (_ | _)
  rename_i t first second
  obtain ⟨v, hv, hc⟩ := h s t first
  obtain ⟨w, hw, -⟩ := second.takes
  exact ⟨v ++ w, by rw [hv, hw, List.append_assoc], List.mem_append_left w hc⟩

theorem second (p : Pattern) (h : q.Demands c) : (next p q).Demands c := by
  rintro s u (_ | _)
  rename_i t first second
  obtain ⟨v, hv, -⟩ := first.takes
  obtain ⟨w, hw, hc⟩ := h t u second
  exact ⟨v ++ w, by rw [hv, hw, List.append_assoc], List.mem_append_right v hc⟩

theorem mem_rest {s t : Cursor} (h : p.Demands c) (hr : p.Reads s t) : c ∈ s.rest := by
  obtain ⟨w, hw, hc⟩ := h s t hr
  rw [hw]
  exact List.mem_append_left _ hc

end Demands

/-- Whether a match reports a name. -/
def names : Pattern → Bool
  | next p q | either p q => p.names || q.names
  | many p => p.names
  | named _ => true
  | _ => false

theorem Reads.name_eq {s t : Cursor} (h : p.Reads s t) (hp : p.names = false) : t.name = s.name := by
  induction h with
  | next _ _ ihp ihq =>
    obtain ⟨hp, hq⟩ := Bool.or_eq_false_iff.mp hp
    rw [ihq hq, ihp hp]
  | left _ _ ih => exact ih (Bool.or_eq_false_iff.mp hp).1
  | right _ _ ih => exact ih (Bool.or_eq_false_iff.mp hp).2
  | turn _ _ _ ihp ihq => rw [ihq hp, ihp hp]
  | named => cases hp
  | _ => rfl

/-- A repetition takes what one of a pattern that can do no less takes. -/
theorem Reads.many_mono (hpq : ∀ s t, p.Reads s t → q.Reads s t) {s t : Cursor}
    (h : (many p).Reads s t) : (many q).Reads s t := by
  generalize hm : many p = m at h
  induction h with
  | stop => exact .stop q _
  | turn body moved _ _ ih =>
    cases hm
    exact .turn (hpq _ _ body) moved (ih rfl)
  | _ => cases hm

theorem identifier_reads {s t : Cursor} : identifier.Reads s t ↔
    s.before.any Text.isIdentChar = false ∧
      ∃ w, Text.isIdentifier w = true ∧ s.rest = w ++ t.rest ∧ t = s.past w t.rest := by
  constructor
  · intro h
    cases h with
    | next edge rest =>
      cases edge with
      | wordEdge edge => exact ⟨edge, (spells_identifier s t).mp rest⟩
  · rintro ⟨edge, hw⟩
    exact .next (.wordEdge edge) ((spells_identifier s t).mpr hw)

/-- The cursor behind a first part of a text. -/
theorem Cursor.at_append (u v : List Char) :
    Cursor.at_ (u ++ v) u.length = ⟨u.getLast?, u.length, v, none⟩ := by
  rw [at_, List.take_left, List.drop_left]

end Callees.Pattern

namespace Callees.Header

open Pattern Text

/-- Nothing but white space. -/
def Blank (w : List Char) : Prop := ∀ c ∈ w, isBlank c = true

instance : DecidablePred Blank := fun w => List.decidableBAll _ w

theorem blank_nil : Blank [] := nofun

/-- Neither parentheses nor braces. -/
def Flat (w : List Char) : Prop := ∀ c ∈ w, c ∉ ['(', ')', '{', '}']

instance : DecidablePred Flat := fun w => List.decidableBAll _ w

/-- What `method` and `declared` have in common: everything behind the name. -/
def parenthesized : Pattern := all [blanks, generics, blanks, params, returnType, blanks, atEnd]

theorem params_demands : params.Demands '(' := .first _ (.char '(')

theorem parenthesized_demands : parenthesized.Demands '(' :=
  .second _ (.second _ (.second _ (.first _ params_demands)))

theorem functionExpression_demands : functionExpression.Demands '(' :=
  .second _ (.second _ (.second _ (.second _ (.second _ (.first _ params_demands)))))

namespace Shape

/-- A character that no header of the shape does without. -/
def sign : Shape → Char
  | assigned => '='
  | keyed => ':'
  | declared | method => '('

theorem demands_sign (shape : Shape) : shape.pattern.Demands shape.sign := by
  cases shape with
  | assigned => exact .second _ (.second _ (.second _ (.first _ (.char '='))))
  | keyed => exact .second _ (.second _ (.first _ (.char ':')))
  | declared => exact .second _ (.second _ parenthesized_demands)
  | method => exact .second _ parenthesized_demands

end Shape

theorem opens_reads {c : Char} {q : Pattern} {s t : Cursor} (h : (next (char c) q).Reads s t) :
    ∃ rest, s.rest = c :: rest := by
  cases h with
  | next first =>
    obtain ⟨_, rfl, hs, -⟩ := (spells_char c s _).mp first
    exact ⟨_, hs⟩

theorem generics_reads {s t : Cursor} (h : generics.Reads s t) :
    t = s ∨ ∃ rest, s.rest = '<' :: rest := by
  cases h with
  | left _ first => exact .inr (opens_reads first)
  | right _ second =>
    cases second
    exact .inl rfl

/-- Blanks aside, something is opened at once, and later on if not at once a parenthesis. -/
def Opens (cs : List Char) : Prop :=
  '(' ∈ cs ∧ ∃ b a rest, Blank b ∧ (a = '(' ∨ a = '<') ∧ cs = b ++ a :: rest

theorem parenthesized_opens {s t : Cursor} (h : parenthesized.Reads s t) : Opens s.rest := by
  refine ⟨parenthesized_demands.mem_rest h, ?_⟩
  cases h with
  | next first rest =>
    obtain ⟨b, hb, hs, -⟩ := (spells_blanks s _).mp first
    cases rest with
    | next generic rest =>
      rcases generics_reads generic with rfl | ⟨rest, hopen⟩
      · cases rest with
        | next second rest =>
          obtain ⟨b', hb', hs', -⟩ := (spells_blanks _ _).mp second
          cases rest with
          | next params =>
            obtain ⟨rest, hopen⟩ := opens_reads params
            refine ⟨b ++ b', '(', rest, List.forall_mem_append.mpr ⟨hb, hb'⟩, .inl rfl, ?_⟩
            rw [hs, hs', hopen, List.append_assoc]
      · exact ⟨b, '<', rest, hb, .inr rfl, by rw [hs, hopen]⟩

theorem params_spell {s t : Cursor} {inner : List Char}
    (hinner : Flat inner) (hs : s.rest = '(' :: (inner ++ ')' :: t.rest))
    (ht : t = s.past ('(' :: (inner ++ [')'])) t.rest) : params.Reads s t := by
  have hopen : (char '(').Reads s (s.past ['('] (inner ++ ')' :: t.rest)) :=
    (spells_char '(' s _).mpr ⟨['('], rfl, hs, rfl⟩
  have hflat : (many (noneOf ['(', ')', '{', '}'])).Reads (s.past ['('] (inner ++ ')' :: t.rest))
      (s.past ('(' :: inner) (')' :: t.rest)) :=
    (spells_many_one _ _ _).mpr ⟨inner, fun c hc => by simpa using hinner c hc, rfl,
      (Cursor.past_past s ['('] inner _ _).symm⟩
  have hclose : (char ')').Reads (s.past ('(' :: inner) (')' :: t.rest)) t :=
    (spells_char ')' _ t).mpr ⟨[')'], rfl, rfl, ht.trans (Cursor.past_past s ('(' :: inner) [')'] _ _).symm⟩
  exact .next hopen (.next (.many_mono (fun _ _ h => .left _ h) hflat) hclose)

/-- Blanks, one pair of parentheses and blanks again are enough. -/
theorem parenthesized_spells {s : Cursor} {space inner gap : List Char}
    (hspace : Blank space) (hinner : Flat inner)
    (hgap : Blank gap) (hs : s.rest = space ++ '(' :: (inner ++ ')' :: gap)) :
    ∃ t, parenthesized.Reads s t := by
  have hopen : blanks.Reads s (s.past space ('(' :: (inner ++ ')' :: gap))) :=
    (spells_blanks s _).mpr ⟨space, hspace, hs, rfl⟩
  have hparams := params_spell (s := s.past space ('(' :: (inner ++ ')' :: gap))) hinner rfl
    (t := (s.past space ('(' :: (inner ++ ')' :: gap))).past ('(' :: (inner ++ [')'])) gap) rfl
  have hend {u : Cursor} (hu : u.rest = gap) : blanks.Reads u (u.past gap []) :=
    (spells_blanks u _).mpr ⟨gap, hgap, hu.trans (List.append_nil gap).symm, rfl⟩
  exact ⟨_, .next hopen (.next (.right _ (.nothing _)) (.next (.stop _ _) (.next hparams
    (.next (.right _ (.nothing _)) (.next (hend rfl) (.atEnd rfl))))))⟩

theorem named_identifier_reads {s t : Cursor} (h : (named identifier).Reads s t) :
    s.before.any isIdentChar = false ∧ ∃ w, isIdentifier w = true ∧ s.rest = w ++ t.rest ∧
      t.name = some (s.offset, s.offset + w.length) := by
  cases h with
  | named body =>
    obtain ⟨hedge, w, hw, hs, ht⟩ := identifier_reads.mp body
    refine ⟨hedge, w, hw, hs, ?_⟩
    rw [ht]
    rfl

theorem method_reads {s t : Cursor} (h : Shape.method.pattern.Reads s t) :
    s.before.any isIdentChar = false ∧ ∃ w u, isIdentifier w = true ∧ s.rest = w ++ u.rest ∧
      parenthesized.Reads u t ∧ t.name = some (s.offset, s.offset + w.length) := by
  cases h with
  | @next _ _ _ u _ name rest =>
    obtain ⟨hedge, w, hw, hs, hname⟩ := named_identifier_reads name
    have hrest : parenthesized.Reads u t := rest
    exact ⟨hedge, w, u, hw, hs, hrest, (hrest.name_eq rfl).trans hname⟩

/-- The word that functions are declared with. -/
def keyword : List Char := "function".toList

theorem keyword_word : ∀ c ∈ keyword, isIdentChar c = true := List.all_eq_true.mp (by decide)

theorem functionWord_spells : functionWord.Spells fun w => ∃ b star b', Blank b ∧
    (star = ['*'] ∨ star = []) ∧ Blank b' ∧ w = keyword ++ (b ++ (star ++ b')) := by
  apply ((spells_text keyword).next
    (spells_blanks.next ((spells_char '*').optional.next spells_blanks))).congr
  intro w
  constructor
  · rintro ⟨_, _, rfl, ⟨b, _, hb, ⟨star, b', hstar, hb', rfl⟩, rfl⟩, rfl⟩
    exact ⟨b, star, b', hb, hstar, hb', rfl⟩
  · rintro ⟨b, star, b', hb, hstar, hb', rfl⟩
    exact ⟨_, _, rfl, ⟨b, _, hb, ⟨star, b', hstar, hb', rfl⟩, rfl⟩, rfl⟩

/-- The keyword, what sets it apart from what follows, perhaps a name, and the rest. -/
theorem function_reads {q r : Pattern} {s t : Cursor}
    (h : (next functionWord (next (optional q) r)).Reads s t) : ∃ g u v,
      (∀ c ∈ g, isBlank c = true ∨ c = '*') ∧ s.rest = keyword ++ (g ++ u.rest) ∧
      u = s.past (keyword ++ g) u.rest ∧ (v = u ∨ q.Reads u v) ∧ r.Reads v t := by
  cases h with
  | @next _ _ _ u _ first rest =>
    obtain ⟨_, ⟨b, star, b', hb, hstar, hb', rfl⟩, hs, hu⟩ := (functionWord_spells s u).mp first
    have hg : ∀ c ∈ b ++ (star ++ b'), isBlank c = true ∨ c = '*' := by
      intro c hc
      simp only [List.mem_append] at hc
      rcases hc with hc | hc | hc
      · exact .inl (hb c hc)
      · rcases hstar with rfl | rfl
        · exact .inr (List.mem_singleton.mp hc)
        · cases hc
      · exact .inl (hb' c hc)
    cases rest with
    | @next _ _ _ v _ name rest =>
      refine ⟨b ++ (star ++ b'), u, v, hg, hs.trans (List.append_assoc ..), hu, ?_, rest⟩
      cases name with
      | right _ second =>
        cases second
        exact .inl rfl
      | left _ first => exact .inr first

/-- Something keeps a name apart from the keyword. -/
theorem ne_nil_of_edge {s u : Cursor} {g : List Char} (hu : u = s.past (keyword ++ g) u.rest)
    (hedge : u.before.any isIdentChar = false) : g ≠ [] := by
  rintro rfl
  rw [hu] at hedge
  cases hedge

/-- A declaration without a name, and one with a name. -/
theorem declared_reads {s t : Cursor} (h : Shape.declared.pattern.Reads s t) :
    ∃ g v, (∀ c ∈ g, isBlank c = true ∨ c = '*') ∧ parenthesized.Reads v t ∧
      (s.rest = keyword ++ (g ++ v.rest) ∧ t.name = s.name ∨
        ∃ w, isIdentifier w = true ∧ g ≠ [] ∧ s.rest = keyword ++ (g ++ (w ++ v.rest)) ∧
          t.name = some (s.offset + (keyword ++ g).length, s.offset + (keyword ++ g).length + w.length)) := by
  obtain ⟨g, u, v, hg, hs, hu, hname, hrest⟩ := function_reads h
  have hrest : parenthesized.Reads v t := hrest
  refine ⟨g, v, hg, hrest, ?_⟩
  rw [hrest.name_eq rfl]
  rcases hname with rfl | hname
  · exact .inl ⟨hs, by rw [hu]; rfl⟩
  · obtain ⟨hedge, w, hw, hu', hv⟩ := named_identifier_reads hname
    refine .inr ⟨w, hw, ne_nil_of_edge hu hedge, by rw [hs, hu'], ?_⟩
    rw [hv, hu]
    rfl

/-- A sign before any parenthesis, and behind it a parenthesis or an arrow at the end of the text. -/
def Values (x : Char) (cs : List Char) : Prop :=
  ∃ u v b, cs = u ++ x :: (v ++ b) ∧ '(' ∉ u ∧ Blank b ∧
    ('(' ∈ v ∨ ∃ y, v = y ++ ['>'])

theorem arrow_ends {s t : Cursor} (h : arrow.Reads s t) : ∃ y, s.rest = y ++ '>' :: t.rest := by
  cases h with
  | next first rest =>
    obtain ⟨u, hu, -⟩ := first.takes
    cases rest with
    | next second rest =>
      obtain ⟨v, hv, -⟩ := second.takes
      obtain ⟨_, rfl, hs, -⟩ := (spells_text ['=', '>'] _ t).mp rest
      exact ⟨u ++ (v ++ ['=']), by rw [hu, hv, hs]; simp⟩

theorem functionValue_takes {s t : Cursor} (h : functionValue.Reads s t) :
    ∃ v, s.rest = v ++ t.rest ∧ ('(' ∈ v ∨ ∃ y, v = y ++ ['>']) := by
  cases h with
  | next async rest =>
    obtain ⟨u, hu, -⟩ := async.takes
    cases rest with
    | left _ first =>
      obtain ⟨w, hw, hc⟩ := functionExpression_demands _ _ first
      exact ⟨u ++ w, by rw [hu, hw, List.append_assoc], .inl (List.mem_append_right u hc)⟩
    | right _ second =>
      obtain ⟨y, hy⟩ := arrow_ends second
      exact ⟨u ++ (y ++ ['>']), by rw [hu, hy]; simp, .inr ⟨u ++ y, by simp⟩⟩

theorem value_reads {x : Char} {s t : Cursor}
    (h : (all [char x, blanks, functionValue, blanks, atEnd]).Reads s t) : Values x s.rest := by
  cases h with
  | next sign rest =>
    obtain ⟨_, rfl, hs, -⟩ := (spells_char x s _).mp sign
    cases rest with
    | next before rest =>
      obtain ⟨b, -, hb, -⟩ := (spells_blanks _ _).mp before
      cases rest with
      | next value rest =>
        obtain ⟨v, hv, hends⟩ := functionValue_takes value
        cases rest with
        | next after rest =>
          obtain ⟨b', hb', hgap, -⟩ := (spells_blanks _ _).mp after
          cases rest with
          | atEnd edge =>
            rw [edge, List.append_nil] at hgap
            refine ⟨[], b ++ v, b', ?_, List.not_mem_nil, hb', ?_⟩
            · rw [hs, hb, hv, ← hgap]
              simp
            · rcases hends with hc | ⟨y, rfl⟩
              · exact .inl (List.mem_append_right b hc)
              · exact .inr ⟨b ++ y, (List.append_assoc ..).symm⟩

/-- What comes before the sign may be anything but a parenthesis. -/
theorem values_later {p q : Pattern} {x : Char} (hp : p.avoids '(' = true)
    (hq : ∀ s t, q.Reads s t → Values x s.rest) (s t : Cursor) (h : (next p q).Reads s t) :
    Values x s.rest := by
  cases h with
  | next first second =>
    obtain ⟨w, hw, havoids⟩ := first.takes
    obtain ⟨u, v, b, hu, hparen, hrest⟩ := hq _ _ second
    refine ⟨w ++ u, v, b, by rw [hw, hu, List.append_assoc], ?_, hrest⟩
    rw [List.mem_append, not_or]
    exact ⟨havoids '(' hp, hparen⟩

theorem valued_reads {shape : Shape} (hshape : shape = .assigned ∨ shape = .keyed) {s t : Cursor}
    (h : shape.pattern.Reads s t) : Values shape.sign s.rest := by
  rcases hshape with rfl | rfl
  · exact values_later rfl (values_later rfl (values_later rfl fun _ _ => value_reads)) s t h
  · exact values_later rfl (values_later rfl fun _ _ => value_reads) s t h

/-- What stands before a header: nothing, or a text that opens braces and closes none, up to the last
brace that it opens. -/
structure Prelude (u : List Char) : Prop where
  closes_none : '}' ∉ u
  last : ∀ c ∈ u.getLast?, c = '{'

namespace Prelude

open Block

variable {u v : List Char} {shape : Shape}

theorem nil : Prelude [] := ⟨List.not_mem_nil, nofun⟩

/-- No name reaches into a prelude. -/
theorem edge (hu : Prelude u) (y : List Char) :
    (u ++ y).getLast?.any isIdentChar = y.getLast?.any isIdentChar := by
  rw [List.getLast?_append]
  cases y.getLast? with
  | some c => rfl
  | none =>
    cases hlast : u.getLast? with
    | none => rfl
    | some c =>
      rw [hu.last c hlast]
      rfl

/-- A header does not begin before a brace that is open where it ends. -/
theorem not_shallow (hu : Prelude u) (hopen : '{' ∉ v) (hclose : '}' ∉ v) {o : Nat}
    (ho : o < u.length) : ¬ Shallow ((u ++ v).drop o) := by
  intro h
  have htotal := h.total
  rw [List.drop_append_of_le_length (Nat.le_of_lt ho), net_append, net_eq_zero hopen hclose, net,
    List.count_eq_zero.mpr fun hmem => hu.closes_none (List.mem_of_mem_drop hmem)] at htotal
  have hne : u.drop o ≠ [] := List.ne_nil_of_length_pos (by rw [List.length_drop]; omega)
  have hlast : (u.drop o).getLast hne = '{' :=
    hu.last _ (by rw [List.getLast_drop]; exact List.getLast_mem_getLast? _)
  have hpos := List.count_pos_iff.mpr (hlast ▸ List.getLast_mem hne)
  omega

theorem start_le (hu : Prelude u) (hopen : '{' ∉ v) (hclose : '}' ∉ v) {found : Found}
    (h : find? (u ++ v) = some found) : u.length ≤ found.start :=
  Nat.le_of_not_lt fun hlt => hu.not_shallow hopen hclose hlt (find?_shallow h)

/-- A shape that fits behind a prelude takes no part of it. -/
theorem search_reads (hu : Prelude u) (hopen : '{' ∉ v) (hclose : '}' ∉ v) {m : Match}
    (h : shape.pattern.search (u ++ v) = some m) :
    ∃ y cs t, v = y ++ cs ∧ shape.pattern.Reads ⟨(u ++ y).getLast?, (u ++ y).length, cs, none⟩ t ∧
      m = ⟨(u ++ y).length, t.offset, t.name⟩ := by
  obtain ⟨hfound, hbound⟩ := search_eq_some h
  obtain ⟨t, hr, hm⟩ := Pattern.matchIn_reads hfound
  have hle : u.length ≤ m.start := by
    obtain ⟨w, hw, hshallow⟩ := shape_shallow shape _ t hr
    rw [hr.ends (shape_ends shape), List.append_nil] at hw
    rw [← hw] at hshallow
    exact Nat.le_of_not_lt fun hlt => hu.not_shallow hopen hclose hlt hshallow
  obtain ⟨j, hj⟩ := Nat.exists_eq_add_of_le hle
  rw [List.length_append] at hbound
  have hstart : m.start = (u ++ v.take j).length := by
    rw [List.length_append, List.length_take, Nat.min_eq_left (by omega), hj]
  rw [hstart] at hr hm
  refine ⟨v.take j, v.drop j, t, (List.take_append_drop j v).symm, ?_, hm⟩
  rwa [← Cursor.at_append, List.append_assoc, List.take_append_drop]

end Prelude

end Callees.Header

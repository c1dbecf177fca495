import Callees.Proofs.CallSites
import Callees.Proofs.DefinitionExtent

namespace Callees.Pattern

open Text

variable {p q : Pattern} {w : List Char}

/-- Behind what it takes, a pattern goes on in the same text. -/
theorem Reads.goes_on {s t : Cursor} (h : p.Reads s t) :
    ∃ w, s.rest = w ++ t.rest ∧ t.before = w.getLast?.or s.before ∧ t.offset = s.offset + w.length := by
  have hjoin {s t u : Cursor}
      (hst : ∃ w, s.rest = w ++ t.rest ∧ t.before = w.getLast?.or s.before ∧ t.offset = s.offset + w.length)
      (htu : ∃ w, t.rest = w ++ u.rest ∧ u.before = w.getLast?.or t.before ∧ u.offset = t.offset + w.length) :
      ∃ w, s.rest = w ++ u.rest ∧ u.before = w.getLast?.or s.before ∧ u.offset = s.offset + w.length := by
    obtain ⟨v, hv, hbefore, hoffset⟩ := hst
    obtain ⟨w, hw, hbefore', hoffset'⟩ := htu
    refine ⟨v ++ w, by rw [hv, hw, List.append_assoc], ?_, ?_⟩
    · rw [hbefore', hbefore, List.getLast?_append, Option.or_assoc]
    · rw [hoffset', hoffset, List.length_append, Nat.add_assoc]
  induction h with
  | @one _ s c cs rest _ => exact ⟨[c], rest, rfl, rfl⟩
  | next _ _ ihp ihq => exact hjoin ihp ihq
  | left _ _ ih => exact ih
  | right _ _ ih => exact ih
  | turn _ _ _ ihp ihq => exact hjoin ihp ihq
  | named _ ih => exact ih
  | _ => exact ⟨[], rfl, rfl, rfl⟩

/-- Every text that the pattern takes has the word in it, with no identifier character right before it. -/
def Mentions (p : Pattern) (w : List Char) : Prop :=
  ∀ s t, p.Reads s t → ∃ u v, s.rest = u ++ (w ++ (v ++ t.rest)) ∧
    (u.getLast?.or s.before).any isIdentChar = false

namespace Mentions

theorem edged (w : List Char) : (next wordEdge (text w)).Mentions w := by
  rintro s t (_ | _)
  rename_i edge word
  cases edge with
  | wordEdge edge =>
    obtain ⟨_, rfl, hs, -⟩ := (spells_text w s t).mp word
    exact ⟨[], [], hs, edge⟩

theorem first (q : Pattern) (h : p.Mentions w) : (next p q).Mentions w := by
  rintro s t (_ | _)
  rename_i r first second
  obtain ⟨u, v, hs, hedge⟩ := h s r first
  obtain ⟨x, hx, -⟩ := second.takes
  exact ⟨u, v ++ x, by rw [hs, hx, List.append_assoc], hedge⟩

theorem second (p : Pattern) (h : q.Mentions w) : (next p q).Mentions w := by
  rintro s t (_ | _)
  rename_i r first second
  obtain ⟨x, hx, hbefore, -⟩ := first.goes_on
  obtain ⟨u, v, hr, hedge⟩ := h r t second
  refine ⟨x ++ u, v, by rw [hx, hr, List.append_assoc], ?_⟩
  rw [List.getLast?_append, Option.or_assoc, ← hbefore]
  exact hedge

/-- The word in a match. -/
theorem of_match {text : List Char} {m : Match} (h : p.Mentions w) (hm : p.matchIn text m.start = some m)
    (hle : m.start ≤ text.length) : ∃ a, m.start ≤ a ∧ a + w.length ≤ m.stop ∧
      Document.slice text a (a + w.length) = w ∧ (text.take a).getLast?.any isIdentChar = false := by
  obtain ⟨t, ht, hmt⟩ := matchIn_reads hm
  obtain ⟨u, v, hrest, hedge⟩ := h _ t ht
  obtain ⟨x, hx, -, hoffset⟩ := ht.goes_on
  have hstop : m.stop = m.start + (u ++ (w ++ v)).length := by
    have hsame : x ++ t.rest = (u ++ (w ++ v)) ++ t.rest := by
      rw [← hx, hrest]
      simp only [List.append_assoc]
    calc
      m.stop = t.offset := congrArg Match.stop hmt
      _ = m.start + x.length := hoffset
      _ = m.start + (u ++ (w ++ v)).length := by rw [List.append_cancel_right hsame]
  obtain ⟨htext, hlength, hbefore⟩ := Cursor.at_split hle hrest
  have hslice := Document.slice_parts (text.take m.start ++ u) w (v ++ t.rest)
  have htake : ((text.take m.start ++ u) ++ (w ++ (v ++ t.rest))).take (text.take m.start ++ u).length =
      text.take m.start ++ u := List.take_left
  rw [← htext, hlength] at hslice htake
  refine ⟨m.start + u.length, Nat.le_add_right .., ?_, hslice, ?_⟩
  · simp only [hstop, List.length_append]
    omega
  · rw [htake, hbefore]
    exact hedge

end Mentions

end Callees.Pattern

namespace Callees.Definition

open Pattern Block Text

variable {name : String} {d : Document}

theorem shape_mentions (name : List Char) : ∀ shape ∈ shapes name, shape.Mentions name := by
  have hname := Mentions.edged name
  simp only [shapes, List.mem_cons, List.not_mem_nil, or_false]
  rintro _ (rfl | rfl | rfl | rfl)
  · exact .second _ (.second _ (.second _ (.second _ (.first _ hname))))
  · exact .second _ (.second _ (.first _ hname))
  · exact .first _ hname
  · exact .first _ hname

/-- The matches of a shape of a name: from left to right and without overlap, none left out, and each with the
name in it as it is. -/
structure Swept (name text : List Char) (shape : Pattern) : Prop where
  apart : (shape.occurrences text).Pairwise fun m m' => m.start < m'.start ∧ m.stop ≤ m'.start
  covered : ∀ a < text.length, (shape.matchIn text a).isSome →
    ∃ m ∈ shape.occurrences text, m.start ≤ a ∧ (m.start = a ∨ a < m.stop)
  named : ∀ m ∈ shape.occurrences text, ∃ a, m.start ≤ a ∧ a + name.length ≤ m.stop ∧
    Document.slice text a (a + name.length) = name ∧ (text.take a).getLast?.any isIdentChar = false

theorem swept (name text : List Char) : ∀ shape ∈ shapes name, Swept name text shape := by
  intro shape hshape
  refine ⟨occurrences_apart shape text, fun a ha => occurrences_cover ha, fun m hm => ?_⟩
  obtain ⟨hfound, hlt⟩ := mem_occurrences hm
  exact (shape_mentions name shape hshape).of_match hfound (Nat.le_of_lt hlt)

/-- A match of the shape that has number `i`. -/
def IsMatch (name : String) (d : Document) (i : Nat) (m : Match) : Prop :=
  ∃ shape, (shapes name.toList)[i]? = some shape ∧ m ∈ shape.occurrences d.chars

/-- By shape, and then from left to right. -/
def Sooner (x y : Nat × Match) : Prop := x.1 < y.1 ∨ x.1 = y.1 ∧ x.2.start < y.2.start

/-- The block that a match gives, from its line on. -/
def blockOf (d : Document) (m : Match) : Option Body := body? d.lineTexts (d.positionAt m.start).line

/-- A match that gives a block, where no sooner one does. -/
structure First (name : String) (d : Document) (i : Nat) (m : Match) (body : Body) : Prop where
  isMatch : IsMatch name d i m
  block : blockOf d m = some body
  sooner : ∀ j m', IsMatch name d j m' → Sooner (j, m') (i, m) → blockOf d m' = none

theorem First.unique {i j : Nat} {m m' : Match} {body body' : Body} (h : First name d i m body)
    (h' : First name d j m' body') : m = m' ∧ body = body' := by
  have hno {i j : Nat} {m m' : Match} {body body' : Body} (h : First name d i m body)
      (h' : First name d j m' body') : ¬ Sooner (i, m) (j, m') := fun hs => by
    cases (h'.sooner i m h.isMatch hs).symm.trans h.block
  have hforth := hno h h'
  have hback := hno h' h
  simp only [Sooner] at hforth hback
  obtain ⟨shape, hshape, hm⟩ := h.isMatch
  obtain ⟨shape', hshape', hm'⟩ := h'.isMatch
  obtain rfl : i = j := by omega
  cases hshape.symm.trans hshape'
  have hstart : m.start = m'.start := by omega
  have hfound := (mem_occurrences hm).1
  rw [hstart] at hfound
  cases hfound.symm.trans (mem_occurrences hm').1
  exact ⟨rfl, Option.some.inj (h.block.symm.trans h'.block)⟩

/-- The matches in the order in which they are tried, each behind the number of its shape. -/
def tried (name : String) (d : Document) : List (Nat × Match) :=
  (shapes name.toList).zipIdx.flatMap fun s => (s.1.occurrences d.chars).map fun m => (s.2, m)

theorem mem_tried {i : Nat} {m : Match} : (i, m) ∈ tried name d ↔ IsMatch name d i m := by
  simp only [tried, IsMatch, List.mem_flatMap, List.mem_map, Prod.mk.injEq, Prod.exists,
    List.mem_zipIdx_iff_getElem?]
  constructor
  · rintro ⟨shape, _, hshape, _, hm, rfl, rfl⟩
    exact ⟨shape, hshape, hm⟩
  · rintro ⟨shape, hshape, hm⟩
    exact ⟨shape, i, hshape, m, hm, rfl, rfl⟩

theorem tried_sorted (name : String) (d : Document) : (tried name d).Pairwise Sooner := by
  have hnumbers : (shapes name.toList).zipIdx.Pairwise fun s s' => s.2 < s'.2 := by
    rw [← List.pairwise_map, List.zipIdx_map_snd]
    exact List.pairwise_lt_range'
  refine List.pairwise_flatMap.mpr ⟨fun s _ => ?_, hnumbers.imp fun hlt x hx y hy => ?_⟩
  · exact List.pairwise_map.mpr ((occurrences_apart s.1 d.chars).imp fun h => .inr ⟨rfl, h.1⟩)
  · obtain ⟨m, -, rfl⟩ := List.mem_map.mp hx
    obtain ⟨m', -, rfl⟩ := List.mem_map.mp hy
    exact .inl hlt

theorem localOffsets_eq (name : String) (d : Document) :
    localOffsets name d = (tried name d).map fun x => x.2.start := by
  have hnumbered := List.flatMap_map Prod.fst (fun shape => (shape.occurrences d.chars).map Match.start)
    (l := (shapes name.toList).zipIdx)
  rw [List.zipIdx_map_fst] at hnumbered
  simp only [localOffsets, tried, List.map_flatMap, List.map_map, hnumbered]
  rfl

/-- What a match and the block from its line make. -/
structure Made (name : String) (d : Document) (m : Match) (body : Body) (x : Definition) : Prop where
  name_eq : x.name = name
  home : x.sourceUri = d.uri
  start : x.range.start = d.positionAt m.start
  stop : ∃ line, d.lineTexts[body.endLine]? = some line ∧ x.range.stop = ⟨body.endLine, line.length⟩
  first : x.startLine = (d.positionAt m.start).line
  last : x.endLine = body.endLine
  ordered : x.startLine ≤ x.endLine
  content : x.content = String.ofList (List.intercalate ['\n']
    ((d.lineTexts.drop x.startLine.toNat).take (x.endLine + 1 - x.startLine).toNat))
  nonempty : x.content ≠ ""
  origin : x.origin = .local_

theorem Made.unique {m : Match} {body : Body} {x x' : Definition} (h : Made name d m body x)
    (h' : Made name d m body x') : x = x' := by
  obtain ⟨line, hline, hstop⟩ := h.stop
  obtain ⟨line', hline', hstop'⟩ := h'.stop
  cases hline.symm.trans hline'
  have hrange : x.range = x'.range :=
    Range.ext (h.start.trans h'.start.symm) (hstop.trans hstop'.symm)
  have hcontent := h.content
  rw [h.first, h.last, ← h'.first, ← h'.last, ← h'.content] at hcontent
  cases x
  cases x'
  simp only [mk.injEq]
  exact ⟨h.name_eq.trans h'.name_eq.symm, h.home.trans h'.home.symm, hrange, hcontent,
    h.first.trans h'.first.symm, h.last.trans h'.last.symm, h.origin.trans h'.origin.symm⟩

theorem ofOffset_cases (name : String) (d : Document) (m : Match) :
    (blockOf d m = none ∧ ofOffset name d m.start = .ok none) ∨
      ∃ body x, blockOf d m = some body ∧ Made name d m body x ∧
        ofOffset name d m.start = .ok (some x) := by
  cases hblock : blockOf d m with
  | none =>
    rw [blockOf] at hblock
    simp only [ofOffset, hblock, true_and, true_or]
  | some body =>
    rw [blockOf] at hblock
    obtain ⟨hle, hlt, hline⟩ := body?_closes hblock
    obtain ⟨-, hlines, -⟩ := body?_some hblock
    have hlast := List.getElem?_eq_getElem hlt
    have hwidth := congrArg (fun line => (line.map List.length).getD 0) hlast
    have hcount : ((body.endLine : Int) + 1 - (d.positionAt m.start).line).toNat =
        body.endLine + 1 - (d.positionAt m.start).line := by omega
    simp only [ofOffset, hblock, Range.between_ok (positionAt_le_stop d hblock)]
    refine .inr ⟨body, _, rfl, ?_, rfl⟩
    exact {
      name_eq := rfl
      home := rfl
      start := rfl
      stop := ⟨_, hlast, congrArg (Position.mk body.endLine) hwidth⟩
      first := rfl
      last := rfl
      ordered := Int.ofNat_le.mpr hle
      content := by rw [Body.content, hlines, Int.toNat_natCast, hcount]
      nonempty := Body.content_ne_empty hline
      origin := rfl }

theorem firstOffset_cases (name : String) (d : Document) (ms : List (Nat × Match)) :
    ((∀ y ∈ ms, blockOf d y.2 = none) ∧ firstOffset name d (ms.map fun y => y.2.start) = .ok none) ∨
      ∃ before y after body x, ms = before ++ y :: after ∧ (∀ y ∈ before, blockOf d y.2 = none) ∧
        blockOf d y.2 = some body ∧ Made name d y.2 body x ∧
        firstOffset name d (ms.map fun y => y.2.start) = .ok (some x) := by
  induction ms with
  | nil => exact .inl ⟨nofun, rfl⟩
  | cons y ms ih =>
    rw [List.map_cons, firstOffset]
    rcases ofOffset_cases name d y.2 with ⟨hblock, hnone⟩ | ⟨body, x, hblock, hmade, hsome⟩
    · rw [hnone]
      rcases ih with ⟨hall, hrest⟩ | ⟨before, z, after, body, x, rfl, hbefore, hblock', hmade, hrest⟩
      · exact .inl ⟨List.forall_mem_cons.mpr ⟨hblock, hall⟩, hrest⟩
      · exact .inr ⟨y :: before, z, after, body, x, rfl, List.forall_mem_cons.mpr ⟨hblock, hbefore⟩,
          hblock', hmade, hrest⟩
    · rw [hsome]
      exact .inr ⟨[], y, ms, body, x, rfl, nofun, hblock, hmade, rfl⟩

theorem inText_cases (name : String) (d : Document) :
    ((∀ i m, IsMatch name d i m → blockOf d m = none) ∧ inText name d = .ok none) ∨
      ∃ i m body x, First name d i m body ∧ Made name d m body x ∧ inText name d = .ok (some x) := by
  have hsorted := tried_sorted name d
  rw [inText, localOffsets_eq]
  rcases firstOffset_cases name d (tried name d) with
    ⟨hall, hnone⟩ | ⟨before, ⟨i, m⟩, after, body, x, hsplit, hbefore, hblock, hmade, hsome⟩
  · exact .inl ⟨fun i m hm => hall (i, m) (mem_tried.mpr hm), hnone⟩
  · have hmatch : IsMatch name d i m := by
      rw [← mem_tried, hsplit]
      exact List.mem_append_right before List.mem_cons_self
    refine .inr ⟨i, m, body, x, ⟨hmatch, hblock, fun j m' hm' hsooner => ?_⟩, hmade, hsome⟩
    rw [← mem_tried, hsplit] at hm'
    rw [hsplit] at hsorted
    rcases List.mem_append.mp hm' with hin | hin
    · exact hbefore (j, m') hin
    · -- what is tried later is not sooner
      have hlater : (j, m') = (i, m) ∨ Sooner (i, m) (j, m') :=
        (List.mem_cons.mp hin).imp_right
          ((List.pairwise_cons.mp (List.pairwise_append.mp hsorted).2.1).1 (j, m'))
      simp only [Sooner, Prod.mk.injEq] at hlater hsooner
      rcases hlater with ⟨rfl, rfl⟩ | hlater <;> omega

/-- The document's own text has no definition of a name exactly if no match of a shape gives a block. Otherwise
the definition is what the first match makes that gives one, by shape and then from left to right. The search
never fails. -/
theorem inText_first (name : String) (d : Document) :
    (∀ shape ∈ shapes name.toList, Swept name.toList d.chars shape) ∧
    (∃ found, inText name d = .ok found) ∧
    (inText name d = .ok none ↔ ∀ i m, IsMatch name d i m → blockOf d m = none) ∧
    ∀ x, inText name d = .ok (some x) ↔
      ∃ i m body, First name d i m body ∧ Made name d m body x := by
  refine ⟨swept name.toList d.chars, ?_⟩
  rcases inText_cases name d with ⟨hall, hnone⟩ | ⟨i, m, body, x, hfirst, hmade, hsome⟩
  · refine ⟨⟨none, hnone⟩, iff_of_true hnone hall, fun x => ⟨fun h => ?_, ?_⟩⟩
    · cases hnone.symm.trans h
    · rintro ⟨i, m, body, hfirst, -⟩
      cases (hall i m hfirst.isMatch).symm.trans hfirst.block
  · refine ⟨⟨some x, hsome⟩, ⟨fun h => ?_, fun hall => ?_⟩, fun x' => ⟨fun h => ?_, ?_⟩⟩
    · cases hsome.symm.trans h
    · cases (hall i m hfirst.isMatch).symm.trans hfirst.block
    · cases hsome.symm.trans h
      exact ⟨i, m, body, hfirst, hmade⟩
    · rintro ⟨j, m', body', hfirst', hmade'⟩
      obtain ⟨rfl, rfl⟩ := hfirst.unique hfirst'
      rw [hsome, hmade.unique hmade']

end Callees.Definition

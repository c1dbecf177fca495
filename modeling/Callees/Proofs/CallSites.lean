import Callees.Proofs.Calls
import Callees.Proofs.Offsets

namespace Callees

open Text

variable {d : Document} {r : Range}

theorem Document.charsIn_getElem? {i : Nat} {c : Char} (h : (d.charsIn r)[i]? = some c) :
    d.chars[d.offsetAt r.start + i]? = some c ∧ d.offsetAt r.start + i < d.offsetAt r.stop := by
  rw [charsIn, slice, List.getElem?_drop, List.getElem?_take] at h
  split at h
  · next hlt => exact ⟨h, hlt⟩
  · cases h

theorem Document.slice_eq {text name : List Char} {x : Nat}
    (h : ∀ k, k < name.length → text[x + k]? = name[k]?) :
    slice text x (x + name.length) = name := by
  apply List.ext_getElem?
  intro k
  rw [slice, List.getElem?_drop, List.getElem?_take]
  split
  · exact h k (by omega)
  · exact (List.getElem?_eq_none (by omega)).symm

theorem Document.slice_parts (u w cs : List Char) :
    slice (u ++ (w ++ cs)) u.length (u.length + w.length) = w := by
  rw [slice, ← List.append_assoc, ← List.length_append, List.take_left, List.drop_left]

namespace IsCall

variable {a : Nat} {name : List Char}

theorem slice_eq {text : List Char} (h : IsCall text a name) :
    Document.slice text a (a + name.length) = name :=
  Document.slice_eq fun _ hk =>
    (h.getElem? (List.getElem?_eq_getElem hk)).trans (List.getElem?_eq_getElem hk).symm

/-- A call in the text of a span, seen from the document. -/
theorem chars (h : IsCall (d.charsIn r) a name) :
    (∀ k, k < name.length → d.chars[d.offsetAt r.start + a + k]? = name[k]?) ∧
      d.offsetAt r.start + a + name.length < d.offsetAt r.stop := by
  constructor
  · intro k hk
    have hget := h.getElem? (List.getElem?_eq_getElem hk)
    rw [Nat.add_assoc, (Document.charsIn_getElem? hget).1, List.getElem?_eq_getElem hk]
  · have hlast := List.getElem?_eq_getElem h.lt
    have := (Document.charsIn_getElem? hlast).2
    omega

theorem plain (h : IsCall (d.charsIn r) a name) (k : Nat) (hk : k < name.length) :
    ∃ c, d.chars[d.offsetAt r.start + a + k]? = some c ∧ ¬ IsBreak c := by
  refine ⟨name[k], ?_, not_isBreak_of_isIdentChar (isIdentifier_all h.identifier _
    (List.getElem_mem hk))⟩
  rw [h.chars.1 k hk, List.getElem?_eq_getElem hk]

theorem length_pos (h : IsCall (d.charsIn r) a name) : 0 < name.length :=
  List.length_pos_iff.mpr (isIdentifier_ne_nil h.identifier)

/-- Calls stand in the document in the order of their offsets. -/
theorem positionAt_lt {b : Nat} (h : IsCall (d.charsIn r) a name) (hab : a < b) :
    d.positionAt (d.offsetAt r.start + a : Nat) < d.positionAt (d.offsetAt r.start + b : Nat) := by
  obtain ⟨c, hc, hplain⟩ := h.plain 0 h.length_pos
  have hlt := Document.positionAt_lt_succ hc hplain
  exact Position.lt_of_lt_of_le hlt (d.positionAt_mono (by omega))

end IsCall

namespace CallSite

open Pattern

/-- The call at offset `a` of the text of a span, as a call site. -/
structure Stands (d : Document) (r : Range) (a : Nat) (c : CallSite) : Prop where
  call : IsCall (d.charsIn r) a c.name.toList
  site : c = at_ d (d.offsetAt r.start + a) c.name.toList

namespace Stands

variable {a : Nat} {c : CallSite}

theorem of_call {name : List Char} (h : IsCall (d.charsIn r) a name) :
    Stands d r a (at_ d (d.offsetAt r.start + a) name) where
  call := by
    simp only [at_, String.toList_ofList]
    exact h
  site := by simp only [at_, String.toList_ofList]

theorem start (h : Stands d r a c) :
    c.range.start = d.positionAt (d.offsetAt r.start + a : Nat) := by
  rw [h.site]
  rfl

theorem stop (h : Stands d r a c) : c.range.stop =
    d.positionAt (d.offsetAt r.start + a + c.name.toList.length : Nat) := by
  rw [(Document.position_in_run h.call.length_pos h.call.plain (Nat.le_refl _)).1, ← h.start, h.site]
  simp only [at_, String.toList_ofList]
  rfl

theorem placed (h : Stands d r a c) :
    c.line = c.range.start.line ∧ c.character = c.range.start.character := by
  rw [h.site]
  exact ⟨rfl, rfl⟩

theorem inside (h : Stands d r a c) : r.start ≤ c.range.start ∧ c.range.stop ≤ r.stop := by
  obtain ⟨b, hb, hplain⟩ := h.call.plain 0 h.call.length_pos
  constructor
  · rw [h.start]
    exact Document.le_positionAt (Nat.le_add_right ..) hb hplain
  · rw [h.stop]
    exact Position.le_trans (d.positionAt_mono (Nat.le_of_lt h.call.chars.2))
      (d.positionAt_offsetAt_le r.stop)

theorem text (h : Stands d r a c) : d.textIn c.range = c.name := by
  have hat (k : Nat) (hk : k ≤ c.name.toList.length) := (Document.position_in_run h.call.length_pos
    h.call.plain hk).2
  have hstart := hat 0 (Nat.zero_le _)
  have hstop := hat _ (Nat.le_refl _)
  rw [← (Document.position_in_run h.call.length_pos h.call.plain (Nat.zero_le _)).1,
    Nat.add_zero, ← h.start] at hstart
  rw [← (Document.position_in_run h.call.length_pos h.call.plain (Nat.le_refl _)).1,
    ← h.stop] at hstop
  rw [Document.textIn, Document.charsIn, hstart, hstop, Document.slice_eq h.call.chars.1,
    String.ofList_toList]

end Stands

/-- The call site for a match of a scan of the span. -/
def ofMatch (d : Document) (r : Range) (skipped : List String) (m : Match) : Option CallSite :=
  m.name.bind fun (a, b) =>
    let name := Document.slice (d.charsIn r) a b
    if skipped.contains (String.ofList name) then none
    else some (at_ d (d.offsetAt r.start + a) name)

variable {skipped : List String}

theorem ofMatch_eq_some {m : Match} {c : CallSite} {a : Nat} {name : List Char}
    (h : IsCall (d.charsIn r) a name) (hm : m.name = some (a, a + name.length)) :
    ofMatch d r skipped m = some c ↔
      String.ofList name ∉ skipped ∧ at_ d (d.offsetAt r.start + a) name = c := by
  simp only [ofMatch, hm, Option.bind_some, h.slice_eq]
  split
  · next hskip => simpa using fun hno => absurd (List.contains_iff_mem.mp hskip) hno
  · next hskip =>
    rw [List.contains_iff_mem] at hskip
    simp [hskip]

theorem stands_of_match {m : Match} {c : CallSite} (hm : m ∈ shape.occurrences (d.charsIn r))
    (hc : ofMatch d r skipped m = some c) : c.name ∉ skipped ∧ Stands d r m.start c := by
  obtain ⟨name, hcall, hname⟩ := isCall_of_mem hm
  obtain ⟨hskip, rfl⟩ := (ofMatch_eq_some hcall hname).mp hc
  exact ⟨hskip, .of_call hcall⟩

theorem inDocument_eq (d : Document) (r : Range) (skipped : List String) :
    inDocument d (some r) skipped =
      (shape.occurrences (d.charsIn r)).filterMap (ofMatch d r skipped) := rfl

theorem mem_inDocument {c : CallSite} :
    c ∈ inDocument d (some r) skipped ↔ c.name ∉ skipped ∧ ∃ a, Stands d r a c := by
  rw [inDocument_eq, List.mem_filterMap]
  constructor
  · rintro ⟨m, hm, hc⟩
    obtain ⟨hskip, hstands⟩ := stands_of_match hm hc
    exact ⟨hskip, m.start, hstands⟩
  · rintro ⟨hskip, a, h⟩
    obtain ⟨m, hm, hstart, hname⟩ := mem_of_isCall h.call
    refine ⟨m, hm, (ofMatch_eq_some h.call hname).mpr ⟨?_, h.site.symm⟩⟩
    rw [String.ofList_toList]
    exact hskip

theorem inDocument_increasing (d : Document) (r : Range) (skipped : List String) :
    (inDocument d (some r) skipped).Pairwise fun c c' => c.range.start < c'.range.start := by
  rw [inDocument_eq, List.pairwise_filterMap]
  refine (occurrences_apart shape (d.charsIn r)).imp_of_mem ?_
  rintro m m' hm hm' ⟨hlt, -⟩ c hc c' hc'
  obtain ⟨-, h⟩ := stands_of_match hm hc
  obtain ⟨-, h'⟩ := stands_of_match hm' hc'
  rw [h.start, h'.start]
  exact h.call.positionAt_lt hlt

theorem firstOfEach_sublist (cs : List CallSite) : (firstOfEach cs).Sublist cs := by
  induction cs with
  | nil => exact .slnil
  | cons c cs ih => exact (List.filter_sublist.trans ih).cons_cons c

theorem firstOfEach_nodup (cs : List CallSite) : ((firstOfEach cs).map CallSite.name).Nodup := by
  induction cs with
  | nil => exact .nil
  | cons c cs ih =>
    rw [firstOfEach, List.map_cons, List.nodup_cons]
    constructor
    · intro hmem
      obtain ⟨c', hc', hname⟩ := List.mem_map.mp hmem
      have hne := (List.mem_filter.mp hc').2
      simp [hname] at hne
    · exact (List.filter_sublist.map _).nodup ih

theorem firstOfEach_covers {cs : List CallSite} {c : CallSite} (h : c ∈ cs) :
    ∃ c' ∈ firstOfEach cs, c'.name = c.name := by
  induction cs with
  | nil => cases h
  | cons first cs ih =>
    by_cases hname : c.name = first.name
    · exact ⟨first, List.mem_cons_self, hname.symm⟩
    · rcases List.mem_cons.mp h with rfl | h
      · exact absurd rfl hname
      · obtain ⟨c', hc', heq⟩ := ih h
        refine ⟨c', List.mem_cons_of_mem _ (List.mem_filter.mpr ⟨hc', ?_⟩), heq⟩
        simpa [heq] using hname

/-- Whatever order the calls come in, the one that is kept comes before all others of its name. -/
theorem firstOfEach_first {R : CallSite → CallSite → Prop} {cs : List CallSite} {c c' : CallSite}
    (hcs : cs.Pairwise R) (h : c ∈ firstOfEach cs) (h' : c' ∈ cs) (hname : c'.name = c.name) :
    c' = c ∨ R c c' := by
  induction cs with
  | nil => cases h
  | cons first cs ih =>
    obtain ⟨hfirst, hcs⟩ := List.pairwise_cons.mp hcs
    rcases List.mem_cons.mp h with rfl | h
    · exact (List.mem_cons.mp h').imp_right (hfirst c')
    · obtain ⟨h, hne⟩ := List.mem_filter.mp h
      rcases List.mem_cons.mp h' with rfl | h'
      · simp [hname] at hne
      · exact ih hcs h h'

/-- What the list of the calls of a span has to be: of each name that is not skipped, the first. -/
structure Listed (d : Document) (r : Range) (skipped : List String) (calls : List CallSite) :
    Prop where
  distinct : (calls.map CallSite.name).Nodup
  increasing : calls.Pairwise fun c c' => c.range.start < c'.range.start
  placed : ∀ c ∈ calls, c.line = c.range.start.line ∧ c.character = c.range.start.character
  inside : ∀ c ∈ calls, r.start ≤ c.range.start ∧ c.range.stop ≤ r.stop
  text : ∀ c ∈ calls, d.textIn c.range = c.name
  identifier : ∀ c ∈ calls, isIdentifier c.name.toList = true
  allowed : ∀ c ∈ calls, c.name ∉ skipped
  earliest : ∀ c ∈ calls, ∃ a, IsCall (d.charsIn r) a c.name.toList ∧
    c.range.start = d.positionAt (d.offsetAt r.start + a : Nat) ∧
    ∀ b, IsCall (d.charsIn r) b c.name.toList → a ≤ b
  complete : ∀ a name, IsCall (d.charsIn r) a name → String.ofList name ∉ skipped →
    ∃ c ∈ calls, c.name = String.ofList name

theorem Stands.earliest {a b : Nat} {c : CallSite} (h : Stands d r a c) (hskip : c.name ∉ skipped)
    (hc : c ∈ firstOfEach (inDocument d (some r) skipped))
    (hb : IsCall (d.charsIn r) b c.name.toList) : a ≤ b := by
  apply Nat.le_of_not_lt
  intro hlt
  have hearlier := hb.positionAt_lt hlt
  have hb' := Stands.of_call hb
  have hname : (at_ d (d.offsetAt r.start + b) c.name.toList).name = c.name := String.ofList_toList
  have hmem : at_ d (d.offsetAt r.start + b) c.name.toList ∈ inDocument d (some r) skipped :=
    mem_inDocument.mpr ⟨hname.symm ▸ hskip, b, hb'⟩
  rw [← h.start, ← hb'.start, Position.lt_iff] at hearlier
  rcases firstOfEach_first (inDocument_increasing d r skipped) hc hmem hname with heq | hlater
  · rw [heq] at hearlier
    omega
  · rw [Position.lt_iff] at hlater
    omega

theorem stands_of_kept {c : CallSite} (hc : c ∈ firstOfEach (inDocument d (some r) skipped)) :
    c.name ∉ skipped ∧ ∃ a, Stands d r a c :=
  mem_inDocument.mp ((firstOfEach_sublist _).subset hc)

theorem listed (d : Document) (r : Range) (skipped : List String) :
    Listed d r skipped (firstOfEach (inDocument d (some r) skipped)) where
  distinct := firstOfEach_nodup _
  increasing := (inDocument_increasing d r skipped).sublist (firstOfEach_sublist _)
  placed c hc := by
    obtain ⟨-, a, h⟩ := stands_of_kept hc
    exact h.placed
  inside c hc := by
    obtain ⟨-, a, h⟩ := stands_of_kept hc
    exact h.inside
  text c hc := by
    obtain ⟨-, a, h⟩ := stands_of_kept hc
    exact h.text
  identifier c hc := by
    obtain ⟨-, a, h⟩ := stands_of_kept hc
    exact h.call.identifier
  allowed c hc := (stands_of_kept hc).1
  earliest c hc := by
    obtain ⟨hskip, a, h⟩ := stands_of_kept hc
    exact ⟨a, h.call, h.start, fun b hb => h.earliest hskip hc hb⟩
  complete a name hcall hskip :=
    firstOfEach_covers (mem_inDocument.mpr ⟨hskip, a, .of_call hcall⟩)

end CallSite

end Callees

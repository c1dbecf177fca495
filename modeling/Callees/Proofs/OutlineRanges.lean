import Mathlib.Data.List.Forall2
import Callees.Proofs.OutlineOrder
import Callees.Proofs.RowsAndLines
import Callees.Proofs.Tiers
import Callees.SyntaxTree

namespace Callees

namespace SyntaxTree

/-- The nodes that a source shows as symbols. -/
def symbolNodes (s : Source) (ts : List SyntaxTree) : List SyntaxTree :=
  (nodesAll ts).filter fun t => (named? s t).isSome

theorem places_symbolNodes (s : Source) (above ts : List SyntaxTree) :
    ((placesAll above ts).filter fun p => (named? s p.node).isSome).map Place.node =
      symbolNodes s ts := by
  rw [symbolNodes, ← placesAll_nodes above ts, List.filter_map]
  rfl

/-- The node's text is `inside`: its points and its bytes are those of the text's two ends, and neither
end is a line break. -/
structure Stands (t : SyntaxTree) (before inside : List Char) : Prop where
  start : t.start = .after (Text.encode before)
  stop : t.stop = .after (Text.encode (before ++ inside))
  bytes : t.bytes =
    some ((Text.encode before).length, (Text.encode (before ++ inside)).length)
  first : ∀ c ∈ inside.head?, ¬ Text.IsBreak c
  last : ∀ c ∈ inside.getLast?, ¬ Text.IsBreak c

/-- Every node below the root stands in the text. -/
def Consistent (cs : List Char) (root : SyntaxTree) : Prop :=
  ∀ t ∈ nodesAll root.children, ∃ before inside behind,
    cs = before ++ (inside ++ behind) ∧ t.Stands before inside

instance (t : SyntaxTree) (before inside : List Char) : Decidable (t.Stands before inside) :=
  -- only the character at an end is looked at, and not every character there is
  have (c? : Option Char) : Decidable (∀ c ∈ c?, ¬ Text.IsBreak c) := Option.decidableForallMem c?
  decidable_of_iff (t.start = .after (Text.encode before) ∧
      t.stop = .after (Text.encode (before ++ inside)) ∧
      t.bytes = some ((Text.encode before).length, (Text.encode (before ++ inside)).length) ∧
      (∀ c ∈ inside.head?, ¬ Text.IsBreak c) ∧ ∀ c ∈ inside.getLast?, ¬ Text.IsBreak c)
    ⟨fun ⟨start, stop, bytes, first, last⟩ => ⟨start, stop, bytes, first, last⟩,
      fun h => ⟨h.start, h.stop, h.bytes, h.first, h.last⟩⟩

end SyntaxTree

/-- The text of a node, with the blanks around it. -/
def Source.written (s : Source) (t : SyntaxTree) : List Char :=
  match t.bytes with
  | some (a, b) => Text.decode ((s.bytes.take b).drop a)
  | none => []

namespace SyntaxTree

open Text

variable {t : SyntaxTree} {before inside : List Char} (h : t.Stands before inside)

include h

theorem Stands.written (behind : List Char) :
    (Source.ofChars (before ++ (inside ++ behind))).written t = inside := by
  rw [Source.written, h.bytes, Source.ofChars]
  simp only
  rw [← List.append_assoc, encode_append (before ++ inside), List.take_left, encode_append,
    List.drop_left, decode_encode]

theorem Stands.range (behind : List Char) : ∃ r,
    (Source.ofChars (before ++ (inside ++ behind))).range t = .ok r ∧
      r.start = place before ∧ r.stop = place (before ++ inside) := by
  have hstart := Source.position_after before (inside ++ behind)
  have hstop := Source.position_after (before ++ inside) behind
  rw [List.append_assoc] at hstop
  rw [Source.range, h.start, h.stop, hstart, hstop, Range.between_ok (place_le before inside)]
  exact ⟨_, rfl, rfl, rfl⟩

end SyntaxTree

/-- How a symbol's range lies to the text of its node. -/
structure Spans (d : Document) (t : SyntaxTree) (info : SymbolInfo) (before inside : List Char) :
    Prop where
  stands : t.Stands before inside
  named : t.named? (Source.ofChars d.chars) = some (info.kind, info.name.toList)
  text : inside = [] ∨ Text.Paired (before ++ inside) →
    d.charsIn info.range = (Source.ofChars d.chars).written t
  placed : inside ≠ [] → (Text.Paired (before ++ inside) ↔
    d.offsetAt info.range.start = before.length ∧
      d.offsetAt info.range.stop = (before ++ inside).length)

open Text Document in
theorem SyntaxTree.Made.spans {d : Document} {t : SyntaxTree} {info : SymbolInfo}
    {before inside behind : List Char} (hm : t.Made (Source.ofChars d.chars) info)
    (hd : d.chars = before ++ (inside ++ behind)) (hs : t.Stands before inside) :
    Spans d t info before inside := by
  have hd' : d.chars = (before ++ inside) ++ behind := by rw [hd, List.append_assoc]
  obtain ⟨r, hr, hstart, hstop⟩ := hs.range behind
  have hrange := hm.range
  rw [hd] at hrange
  cases hr.symm.trans hrange
  have hexact (hp : Paired (before ++ inside)) (hinside : inside ≠ []) :
      d.offsetAt info.range.start = before.length ∧
        d.offsetAt info.range.stop = (before ++ inside).length := by
    have hfirst : inside.head? ≠ some '\n' := fun h => hs.first _ h (.inr rfl)
    rw [hstart, hstop]
    exact ⟨offsetAt_place hd (hp.ahead hfirst), offsetAt_place hd' hp⟩
  refine ⟨hs, hm.named, fun h => ?_, fun hinside => ⟨fun hp => hexact hp hinside, fun h => ?_⟩⟩
  · rw [hd, hs.written, charsIn, slice]
    by_cases hinside : inside = []
    · subst hinside
      rw [hstart, hstop, List.append_nil]
      exact List.drop_eq_nil_of_le (List.length_take_le ..)
    · obtain ⟨ha, hb⟩ := hexact (h.resolve_left hinside) hinside
      rw [ha, hb, hd', List.take_left, List.drop_left]
  · by_contra hp
    have hlast : ∀ c ∈ (before ++ inside).getLast?, ¬ IsBreak c := by
      rw [List.getLast?_append_of_ne_nil _ hinside]
      exact hs.last
    have hlt := offsetAt_place_lt hd' hlast hp
    rw [← hstop, h.2] at hlt
    exact Nat.lt_irrefl _ hlt

namespace Outline

variable {σ : Type} (parse : Parse) {d : Document} {g : Grammar}

/-- The outline of a document whose tree is consistent with its text can be had. -/
theorem provider_made (hg : Grammar.ofDocument? d = some g)
    (hc : (parse g d.text).Consistent d.chars) (s : Session σ) :
    ∃ symbols, ((provider parse d).run s).1 = .ok symbols ∧
      List.Forall₂ (SyntaxTree.Made (Source.ofChars d.chars))
        (SyntaxTree.symbolNodes (Source.ofChars d.chars) (parse g d.text).children)
        (flatten d.uri symbols) := by
  obtain ⟨symbols, hok, hentered⟩ :=
    SyntaxTree.outlineAll_entered (s := Source.ofChars d.chars) (parse g d.text).children fun t ht => by
      obtain ⟨before, inside, behind, hd, hs⟩ := hc t ht
      rw [hd]
      obtain ⟨r, hr, -⟩ := hs.range behind
      exact ⟨r, hr⟩
  have htext : ofText parse g d.text = .ok symbols := hok
  refine ⟨symbols, ?_, ?_⟩
  · simp only [provider, hg, htext]
    rfl
  · rw [← SyntaxTree.places_symbolNodes _ [], List.forall₂_map_left_iff]
    exact (hentered d.uri []).imp fun _ _ h => h.made

/-- Each symbol spans the text of its node if no `\r` stands alone before its end, and otherwise its
range ends too early. -/
theorem provider_spans (hg : Grammar.ofDocument? d = some g)
    (hc : (parse g d.text).Consistent d.chars) (s : Session σ) :
    ∃ symbols, ((provider parse d).run s).1 = .ok symbols ∧
      List.Forall₂ (fun t info => ∃ before inside behind,
          d.chars = before ++ (inside ++ behind) ∧ Spans d t info before inside)
        (SyntaxTree.symbolNodes (Source.ofChars d.chars) (parse g d.text).children)
        (flatten d.uri symbols) := by
  obtain ⟨symbols, hok, hmade⟩ := provider_made parse hg hc s
  have hstands : ∀ t ∈ SyntaxTree.symbolNodes (Source.ofChars d.chars) (parse g d.text).children,
      ∃ before inside behind, d.chars = before ++ (inside ++ behind) ∧ t.Stands before inside :=
    fun t ht => hc t (List.mem_of_mem_filter ht)
  refine ⟨symbols, hok, ((List.forall₂_and_left _ _).mpr ⟨hstands, hmade⟩).imp ?_⟩
  rintro t info ⟨⟨before, inside, behind, hd, hs⟩, hm⟩
  exact ⟨before, inside, behind, hd, hm.spans hd hs⟩

/-- Its text has letters of two bytes, and a break of each kind. -/
def mixed : Document :=
  ⟨"file:///w/k.js", "// été\r\nclass K \x7b\n  go() \x7b\x7d\r\n\x7d\rgo();\n", none, 0⟩

def mixedTree : SyntaxTree :=
  .node "program" ⟨0, 0⟩ ⟨4, 0⟩ (some (0, 39)) none
    [.node "class_declaration" ⟨1, 0⟩ ⟨3, 1⟩ (some (10, 32)) none
      [.node "identifier" ⟨1, 6⟩ ⟨1, 7⟩ (some (16, 17)) (some "name") [],
        .node "class_body" ⟨1, 8⟩ ⟨3, 1⟩ (some (18, 32)) (some "body")
          [.node "method_definition" ⟨2, 2⟩ ⟨2, 9⟩ (some (22, 29)) (some "member")
            [.node "property_identifier" ⟨2, 2⟩ ⟨2, 4⟩ (some (22, 24)) (some "name") []]]]]

theorem mixedTree_consistent : mixedTree.Consistent mixed.chars := by
  have hstands (t : SyntaxTree) (a b : Nat)
      (h : t.Stands (mixed.chars.take a) ((mixed.chars.drop a).take b)) :
      ∃ before inside behind, mixed.chars = before ++ (inside ++ behind) ∧ t.Stands before inside :=
    ⟨_, _, (mixed.chars.drop a).drop b, by simp only [List.take_append_drop], h⟩
  intro t ht
  simp only [mixedTree, SyntaxTree.children, SyntaxTree.nodesAll, SyntaxTree.nodes, List.append_nil,
    List.cons_append, List.nil_append, List.mem_cons, List.not_mem_nil, or_false] at ht
  rcases ht with rfl | rfl | rfl | rfl | rfl
  · exact hstands _ 8 22 (by decide +kernel)
  · exact hstands _ 14 1 (by decide +kernel)
  · exact hstands _ 16 14 (by decide +kernel)
  · exact hstands _ 20 7 (by decide +kernel)
  · exact hstands _ 20 2 (by decide +kernel)

theorem provider_spans_mixed :
    Grammar.ofDocument? mixed = some .javascript ∧ mixedTree.Consistent mixed.chars ∧
      ∃ symbols, ((provider (fun _ _ => mixedTree) mixed).run (⟨(), []⟩ : Session Unit)).1 =
          .ok symbols ∧
        List.Forall₂ (fun t info => ∃ before inside behind,
            mixed.chars = before ++ (inside ++ behind) ∧ Spans mixed t info before inside)
          (SyntaxTree.symbolNodes (Source.ofChars mixed.chars) mixedTree.children)
          (flatten mixed.uri symbols) ∧
        (flatten mixed.uri symbols).map (fun info => mixed.textIn info.range) =
          ["class K \x7b\n  go() \x7b\x7d\r\n\x7d", "go() \x7b\x7d"] := by
  have hg : Grammar.ofDocument? mixed = some .javascript := by decide +kernel
  obtain ⟨symbols, hok, hspans⟩ := provider_spans (fun _ _ => mixedTree) hg
    mixedTree_consistent (⟨(), []⟩ : Session Unit)
  have htexts : (((provider (fun _ _ => mixedTree) mixed).run
      (⟨(), []⟩ : Session Unit)).1.map fun symbols =>
        (flatten mixed.uri symbols).map fun info => mixed.textIn info.range) =
      .ok ["class K \x7b\n  go() \x7b\x7d\r\n\x7d", "go() \x7b\x7d"] := by decide +kernel
  rw [hok] at htexts
  exact ⟨hg, mixedTree_consistent, symbols, hok, hspans, Except.ok.inj htexts⟩

/-- The function is on the second line of the document, and in the first row of its source. -/
def returned : Document := ⟨"file:///w/f.js", "a;\rfunction f() \x7b\x7d", none, 0⟩

def returnedTree : SyntaxTree :=
  .node "program" ⟨0, 0⟩ ⟨0, 18⟩ (some (0, 18)) none
    [.node "function_declaration" ⟨0, 3⟩ ⟨0, 18⟩ (some (3, 18)) none
      [.node "identifier" ⟨0, 12⟩ ⟨0, 13⟩ (some (12, 13)) (some "name") []]]

theorem returnedTree_consistent : returnedTree.Consistent returned.chars := by
  intro t ht
  simp only [returnedTree, SyntaxTree.children, SyntaxTree.nodesAll, SyntaxTree.nodes,
    List.append_nil, List.mem_cons, List.not_mem_nil, or_false] at ht
  rcases ht with rfl | rfl
  · exact ⟨"a;\r".toList, "function f() \x7b\x7d".toList, [], by decide +kernel, by decide +kernel⟩
  · exact ⟨"a;\rfunction ".toList, ['f'], "() \x7b\x7d".toList, by decide +kernel, by decide +kernel⟩

/-- Its range is empty there. -/
theorem provider_misplaces : ¬ ∀ (parse : Parse) (d : Document) (g : Grammar)
    (symbols : List Outline), Grammar.ofDocument? d = some g →
      (parse g d.text).Consistent d.chars →
      ((provider parse d).run (⟨(), []⟩ : Session Unit)).1 = .ok symbols →
        List.Forall₂ (fun t info => (Source.ofChars d.chars).written t = d.charsIn info.range)
          (SyntaxTree.symbolNodes (Source.ofChars d.chars) (parse g d.text).children)
          (flatten d.uri symbols) := by
  intro h
  have hg : Grammar.ofDocument? returned = some .javascript := by decide +kernel
  obtain ⟨symbols, hok, -⟩ := provider_made (fun _ _ => returnedTree) hg
    returnedTree_consistent (⟨(), []⟩ : Session Unit)
  have htexts := h (fun _ _ => returnedTree) returned .javascript symbols hg returnedTree_consistent hok
  have hequal : (SyntaxTree.symbolNodes (Source.ofChars returned.chars) returnedTree.children).map
      (Source.ofChars returned.chars).written =
        (flatten returned.uri symbols).map fun info => returned.charsIn info.range := by
    rw [← List.forall₂_eq_eq_eq, List.forall₂_map_left_iff, List.forall₂_map_right_iff]
    exact htexts
  have hempty : (((provider (fun _ _ => returnedTree) returned).run
      (⟨(), []⟩ : Session Unit)).1.map fun symbols =>
        (flatten returned.uri symbols).map fun info => returned.charsIn info.range) =
      .ok [[]] := by decide +kernel
  rw [hok] at hempty
  exact absurd (hequal.trans (Except.ok.inj hempty)) (by decide +kernel)

end Outline

end Callees

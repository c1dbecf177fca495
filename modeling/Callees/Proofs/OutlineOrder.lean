import Mathlib.Data.List.Forall2
import Callees.Proofs.Utf8
import Callees.SyntaxTree

namespace Callees

namespace SyntaxTree

mutual

/-- A node and all below it, parents before their children. -/
def nodes : SyntaxTree → List SyntaxTree
  | node kind start stop bytes field children =>
    node kind start stop bytes field children :: nodesAll children

def nodesAll : List SyntaxTree → List SyntaxTree
  | [] => []
  | t :: ts => nodes t ++ nodesAll ts

end

/-- A node, and the nodes that it lies below, the closest first. -/
structure Place where
  above : List SyntaxTree
  node : SyntaxTree

mutual

/-- The places of a node and of all below it, parents before their children. -/
def places (above : List SyntaxTree) : SyntaxTree → List Place
  | node kind start stop bytes field children =>
    let t := node kind start stop bytes field children
    ⟨above, t⟩ :: placesAll (t :: above) children

def placesAll (above : List SyntaxTree) : List SyntaxTree → List Place
  | [] => []
  | t :: ts => places above t ++ placesAll above ts

end

mutual

theorem places_nodes : ∀ (above : List SyntaxTree) (t : SyntaxTree),
    (places above t).map Place.node = nodes t
  | above, node kind start stop bytes field children => by
    rw [places, nodes, List.map_cons, placesAll_nodes _ children]

theorem placesAll_nodes : ∀ (above : List SyntaxTree) (ts : List SyntaxTree),
    (placesAll above ts).map Place.node = nodesAll ts
  | _, [] => rfl
  | above, t :: ts => by
    rw [placesAll, nodesAll, List.map_append, places_nodes above t, placesAll_nodes above ts]

end

/-- The symbol that a node is made into. -/
structure Made (s : Source) (t : SyntaxTree) (info : SymbolInfo) : Prop where
  named : named? s t = some (info.kind, info.name.toList)
  range : s.range t = .ok info.range

/-- The name of the first of some nodes that is a symbol. -/
def firstName? (s : Source) (ts : List SyntaxTree) : Option String :=
  (ts.findSome? (named? s)).map fun symbol => String.ofList symbol.2

theorem firstName?_of_none {s : Source} {t : SyntaxTree} (h : named? s t = none)
    (ts : List SyntaxTree) : firstName? s (t :: ts) = firstName? s ts := by
  rw [firstName?, List.findSome?_cons, h, firstName?]

theorem firstName?_of_some {s : Source} {t : SyntaxTree} {kind : SymbolKind} {name : List Char}
    (h : named? s t = some (kind, name)) (ts : List SyntaxTree) :
    firstName? s (t :: ts) = some (String.ofList name) := by
  rw [firstName?, List.findSome?_cons, h]
  rfl

/-- The entry that the node at a place makes in the list of a document's symbols. -/
structure Entered (s : Source) (uri : String) (p : Place) (info : SymbolInfo) : Prop where
  made : Made s p.node info
  uri : info.uri = uri
  container : info.container = firstName? s p.above

variable {s : Source}

theorem flattenAll_append (uri : String) (container : Option String) (os os' : List Outline) :
    Outline.flattenAll uri container (os ++ os') =
      Outline.flattenAll uri container os ++ Outline.flattenAll uri container os' := by
  induction os with
  | nil => rfl
  | cons o os ih => rw [List.cons_append, Outline.flattenAll, Outline.flattenAll, ih, List.append_assoc]

mutual

theorem outlineNode_entered : ∀ t : SyntaxTree, (∀ u ∈ nodes t, ∃ r, s.range u = .ok r) →
    ∃ os, outlineNode s t = .ok os ∧ ∀ uri above, List.Forall₂ (Entered s uri)
      ((places above t).filter fun p => (named? s p.node).isSome)
      (Outline.flattenAll uri (firstName? s above) os)
  | node kind start stop bytes field children => by
    intro h
    rw [nodes] at h
    obtain ⟨⟨range, hrange⟩, hbelow⟩ := List.forall_mem_cons.mp h
    obtain ⟨below, hok, hentered⟩ := outlineAll_entered children hbelow
    rw [outlineNode]
    cases hnamed : named? s (node kind start stop bytes field children) with
    | none =>
      -- the symbols below stay where they are, and under the same name
      refine ⟨below, hok, fun uri above => ?_⟩
      rw [places, List.filter_cons_of_neg (by simp [hnamed]), ← firstName?_of_none hnamed above]
      exact hentered uri _
    | some symbol =>
      obtain ⟨symbolKind, name⟩ := symbol
      refine ⟨[.node (String.ofList name) symbolKind range below], ?_, fun uri above => ?_⟩
      · simp only [hrange, hok]
        rfl
      · rw [places, List.filter_cons_of_pos (by simp [hnamed])]
        simp only [Outline.flattenAll, Outline.flattenNode, List.append_nil]
        rw [← firstName?_of_some hnamed above]
        exact .cons ⟨⟨by simp [hnamed], hrange⟩, rfl, rfl⟩ (hentered uri _)

theorem outlineAll_entered : ∀ ts : List SyntaxTree, (∀ u ∈ nodesAll ts, ∃ r, s.range u = .ok r) →
    ∃ os, outlineAll s ts = .ok os ∧ ∀ uri above, List.Forall₂ (Entered s uri)
      ((placesAll above ts).filter fun p => (named? s p.node).isSome)
      (Outline.flattenAll uri (firstName? s above) os)
  | [] => fun _ => ⟨[], rfl, fun _ _ => .nil⟩
  | t :: ts => by
    intro h
    rw [nodesAll] at h
    obtain ⟨hfirst, hrest⟩ := List.forall_mem_append.mp h
    obtain ⟨os, hok, hentered⟩ := outlineNode_entered t hfirst
    obtain ⟨os', hok', hentered'⟩ := outlineAll_entered ts hrest
    refine ⟨os ++ os', ?_, fun uri above => ?_⟩
    · rw [outlineAll, hok, hok']
      rfl
    · rw [placesAll, List.filter_append, flattenAll_append]
      exact List.rel_append (hentered uri above) (hentered' uri above)

end

end SyntaxTree

namespace Point

/-- Points are ordered as they are read: by row, then by column. -/
def NotAfter (p q : Point) : Prop := p.row < q.row ∨ (p.row = q.row ∧ p.column ≤ q.column)

instance : LE Point := ⟨NotAfter⟩

instance (p q : Point) : Decidable (p ≤ q) :=
  inferInstanceAs (Decidable (p.row < q.row ∨ (p.row = q.row ∧ p.column ≤ q.column)))

end Point

namespace Source

variable (s : Source)

/-- A column further on is no fewer characters away, wherever in a character the two are. -/
theorem column_mono (row : Nat) {c c' : Nat} (h : c ≤ c') :
    s.column ⟨row, c⟩ ≤ s.column ⟨row, c'⟩ := by
  rw [column, column]
  cases s.rows[row]? with
  | none => exact h
  | some bytes =>
    obtain ⟨more, hmore⟩ := List.take_prefix_take_left (l := bytes) h
    simp only [Text.decode, List.length_map, ← hmore]
    exact Text.pieces_length_le_append _ more

theorem position_mono {p q : Point} (h : p ≤ q) : s.position p ≤ s.position q := by
  obtain ⟨row, c⟩ := p
  obtain ⟨row', c'⟩ := q
  rw [Position.le_iff]
  rcases h with hlt | ⟨rfl, hle⟩
  · exact .inl hlt
  · exact .inr ⟨rfl, s.column_mono row hle⟩

end Source

namespace SyntaxTree

end SyntaxTree

end Callees

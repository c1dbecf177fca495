import Mathlib
import Callees.Proofs.LocatedScope

namespace Callees

namespace Range

/-- The size of a span, lines before columns. -/
def size (r : Range) : Nat ×ₗ Int := toLex (r.lineSpan, r.columnSpan)

theorem size_lt_iff {r s : Range} : r.size < s.size ↔
    r.lineSpan < s.lineSpan ∨ (r.lineSpan = s.lineSpan ∧ r.columnSpan < s.columnSpan) :=
  Prod.Lex.toLex_lt_toLex

theorem smallerThan_iff {r s : Range} : r.smallerThan s = true ↔ r.size < s.size := by
  rw [size_lt_iff]
  simp [smallerThan]

/-- One span lies in another, whose bounds it may share. -/
structure Within (r s : Range) : Prop where
  start : s.start ≤ r.start
  stop : r.stop ≤ s.stop

instance (r s : Range) : Decidable (r.Within s) :=
  decidable_of_iff (s.start ≤ r.start ∧ r.stop ≤ s.stop)
    ⟨fun h => ⟨h.1, h.2⟩, fun h => ⟨h.start, h.stop⟩⟩

theorem Within.contains {r s : Range} {p : Position} (h : r.Within s) (hp : r.contains p = true) :
    s.contains p = true := by
  rw [contains_iff] at hp ⊢
  exact ⟨Position.le_trans h.start hp.1, Position.lt_of_lt_of_le hp.2 h.stop⟩

end Range

namespace Outline

/-- A symbol of an outline, and the symbols that it lies below, the closest first. -/
structure Place where
  above : List Outline
  symbol : Outline

mutual

/-- The places of a symbol and of all below it, parents before their children. -/
def places (above : List Outline) : Outline → List Place
  | node name kind range children =>
    let o := node name kind range children
    ⟨above, o⟩ :: placesAll (o :: above) children

def placesAll (above : List Outline) : List Outline → List Place
  | [] => []
  | o :: os => places above o ++ placesAll above os

end

/-- A function-like symbol around a position, as is all that it lies below. -/
def Place.isAround (p : Position) (x : Place) : Bool :=
  x.symbol.isFunctionLike && (x.symbol :: x.above).all fun o => o.range.contains p

def around (p : Position) (xs : List Place) : List Outline :=
  (xs.filter (Place.isAround p)).map Place.symbol

/-- The better of what was found before and another symbol. -/
def keep (best : Option Outline) (o : Outline) : Option Outline :=
  List.argAux (fun a b => a.range.size < b.range.size) best o

/-- Every child lies within its parent. -/
def Nested (os : List Outline) : Prop :=
  ∀ x ∈ placesAll [] os, ∀ parent ∈ x.above.head?, x.symbol.range.Within parent.range

instance (os : List Outline) : Decidable (Nested os) :=
  inferInstanceAs (Decidable (∀ x ∈ placesAll [] os, ∀ parent ∈ x.above.head?,
    x.symbol.range.Within parent.range))

variable {p : Position}

theorem keep_some (b o : Outline) :
    keep (some b) o = if o.range.smallerThan b.range = true then some o else some b := by
  simp only [keep, List.argAux, Range.smallerThan_iff]

theorem around_append (xs ys : List Place) : around p (xs ++ ys) = around p xs ++ around p ys := by
  simp [around]

theorem around_cons (x : Place) (xs : List Place) : around p (x :: xs) =
    if x.isAround p = true then x.symbol :: around p xs else around p xs := by
  rw [around, List.filter_cons]
  split <;> rfl

mutual

/-- Below a symbol that is not around the position none counts. -/
theorem around_places_nil {above : List Outline}
    (h : ∃ a ∈ above, a.range.contains p = false) :
    ∀ o : Outline, around p (places above o) = []
  | node name kind range children => by
    obtain ⟨a, ha, hout⟩ := h
    rw [places, around_cons, if_neg]
    · exact around_placesAll_nil ⟨a, List.mem_cons_of_mem _ ha, hout⟩ children
    · simp only [Place.isAround, Bool.and_eq_true, List.all_eq_true]
      rintro ⟨-, hall⟩
      rw [hall a (List.mem_cons_of_mem _ ha)] at hout
      cases hout

theorem around_placesAll_nil {above : List Outline}
    (h : ∃ a ∈ above, a.range.contains p = false) :
    ∀ os : List Outline, around p (placesAll above os) = []
  | [] => rfl
  | o :: os => by
    rw [placesAll, around_append, around_places_nil h o, around_placesAll_nil h os]
    rfl

end

mutual

/-- The search keeps the better one at each symbol that counts. -/
theorem tightestIn_eq {above : List Outline} {best : Option Outline}
    (h : ∀ a ∈ above, a.range.contains p = true) :
    ∀ o : Outline, tightestIn p best o = (around p (places above o)).foldl keep best
  | node name kind range children => by
    rw [tightestIn, places, around_cons]
    split
    · next hin =>
      have habove : ∀ a ∈ node name kind range children :: above, a.range.contains p = true :=
        List.forall_mem_cons.mpr ⟨hin, h⟩
      have hself : Place.isAround p ⟨above, node name kind range children⟩ = kind.isFunctionLike := by
        rw [Place.isAround, List.all_eq_true.mpr habove, Bool.and_true]
        rfl
      rw [tightestAmong_eq habove children, hself]
      cases hkind : kind.isFunctionLike with
      | false => rfl
      | true =>
        rw [if_pos rfl, List.foldl_cons]
        congr 1
        cases best with
        | none => rfl
        | some b =>
          rw [keep_some]
          rfl
    · next hout =>
      have hself : Place.isAround p ⟨above, node name kind range children⟩ = false := by
        simp [Place.isAround, Outline.range, hout]
      have hbelow : around p (placesAll (node name kind range children :: above) children) = [] :=
        around_placesAll_nil ⟨_, List.mem_cons_self, by simpa [Outline.range] using hout⟩ children
      rw [hself, hbelow]
      rfl

theorem tightestAmong_eq {above : List Outline} {best : Option Outline}
    (h : ∀ a ∈ above, a.range.contains p = true) :
    ∀ os : List Outline, tightestAmong p best os = (around p (placesAll above os)).foldl keep best
  | [] => rfl
  | o :: os => by
    rw [tightestAmong, tightestIn_eq h o, tightestAmong_eq h os, placesAll, around_append,
      List.foldl_append]

end

mutual

/-- In a nested outline, all that a symbol around the position lies below is around it. -/
theorem places_contains : ∀ (above : List Outline) (o : Outline),
    (∀ x ∈ places above o, ∀ parent ∈ x.above.head?, x.symbol.range.Within parent.range) →
      ∀ x ∈ places above o, x.symbol.range.contains p = true →
        o.range.contains p = true ∧ ∀ a ∈ x.above, a ∈ above ∨ a.range.contains p = true
  | above, node name kind range children => by
    intro h x hx hp
    rw [places] at h hx
    obtain ⟨-, hbelow⟩ := List.forall_mem_cons.mp h
    rcases List.mem_cons.mp hx with rfl | hx
    · exact ⟨hp, fun a ha => .inl ha⟩
    · obtain ⟨hparent, hall⟩ := placesAll_contains _ children hbelow x hx hp
      have hself := hparent _ rfl
      refine ⟨hself, fun a ha => ?_⟩
      rcases hall a ha with hmem | hin
      · rcases List.mem_cons.mp hmem with rfl | hmem
        · exact .inr hself
        · exact .inl hmem
      · exact .inr hin

theorem placesAll_contains : ∀ (above : List Outline) (os : List Outline),
    (∀ x ∈ placesAll above os, ∀ parent ∈ x.above.head?, x.symbol.range.Within parent.range) →
      ∀ x ∈ placesAll above os, x.symbol.range.contains p = true →
        (∀ parent ∈ above.head?, parent.range.contains p = true) ∧
          ∀ a ∈ x.above, a ∈ above ∨ a.range.contains p = true
  | _, [] => fun _ _ hx => nomatch hx
  | above, o :: os => by
    intro h x hx hp
    rw [placesAll] at h hx
    obtain ⟨hfirst, hrest⟩ := List.forall_mem_append.mp h
    rcases List.mem_append.mp hx with hx | hx
    · obtain ⟨hin, hall⟩ := places_contains above o hfirst x hx hp
      refine ⟨fun parent hparent => ?_, hall⟩
      have hself : ⟨above, o⟩ ∈ places above o := by
        cases o
        exact List.mem_cons_self
      exact (hfirst _ hself parent hparent).contains hin
    · exact placesAll_contains above os hrest x hx hp

end

end Outline

namespace Locator

open Outline

variable {σ : Type}

end Locator

end Callees

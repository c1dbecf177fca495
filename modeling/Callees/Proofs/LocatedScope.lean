import Mathlib.Data.List.Basic
import Callees.Proofs.BraceScope
import Callees.Proofs.Offsets
import Callees.Proofs.Tiers

namespace Callees

theorem Range.contains_iff {r : Range} {p : Position} :
    r.contains p = true ↔ r.start ≤ p ∧ p < r.stop := Bool.and_eq_true_iff

namespace Outline

variable {p : Position}

mutual

theorem tightestIn_contains {best : Option Outline}
    (hb : ∀ b ∈ best, b.range.contains p = true) :
    ∀ o : Outline, ∀ t ∈ tightestIn p best o, t.range.contains p = true
  | .node name kind range children => by
    rw [tightestIn]
    split
    · next hin =>
      apply tightestAmong_contains
      intro b hmem
      split at hmem
      · cases hmem
        exact hin
      · exact hb b hmem
    · exact hb

theorem tightestAmong_contains {best : Option Outline}
    (hb : ∀ b ∈ best, b.range.contains p = true) :
    ∀ os : List Outline, ∀ t ∈ tightestAmong p best os, t.range.contains p = true
  | [] => hb
  | o :: os => by
    rw [tightestAmong]
    exact tightestAmong_contains (tightestIn_contains hb o) os

end

theorem tightest?_contains {os : List Outline} {o : Outline} (h : tightest? p os = some o) :
    o.range.contains p = true :=
  tightestAmong_contains (by simp) os o h

/-- A node around a position, at the end of a chain of nodes around it. -/
inductive Shows (p : Position) : List Outline → Outline → Prop
  | here {o : Outline} {os : List Outline} (around : o.range.contains p = true) :
      Shows p (o :: os) o
  | within {o inner : Outline} {os : List Outline} (around : o.range.contains p = true)
      (inside : Shows p o.children inner) : Shows p (o :: os) inner
  | beside {o inner : Outline} {os : List Outline} (later : Shows p os inner) :
      Shows p (o :: os) inner

theorem shows_cons {o inner : Outline} {os : List Outline} : Shows p (o :: os) inner ↔
    o.range.contains p = true ∧ (inner = o ∨ Shows p o.children inner) ∨ Shows p os inner := by
  constructor
  · rintro (around | ⟨around, inside⟩ | later)
    · exact .inl ⟨around, .inl rfl⟩
    · exact .inl ⟨around, .inr inside⟩
    · exact .inr later
  · rintro (⟨around, rfl | inside⟩ | later)
    · exact .here around
    · exact .within around inside
    · exact .beside later

mutual

theorem tightestIn_eq_none {best : Option Outline} : ∀ o : Outline, tightestIn p best o = none ↔
    best = none ∧ ∀ o', o.range.contains p = true ∧ (o' = o ∨ Shows p o.children o') →
      o'.isFunctionLike = false
  | .node name kind range children => by
    rw [tightestIn, show (Outline.node name kind range children).range = range from rfl,
      show (Outline.node name kind range children).children = children from rfl]
    split
    · next hin =>
      rw [tightestAmong_eq_none children]
      have hself : (node name kind range children).isFunctionLike = kind.isFunctionLike := rfl
      cases best with
      | none => cases hkind : kind.isFunctionLike <;> simp [hin, hkind, hself]
      -- what was found before is given up only for something else
      | some b => split <;> simp
    · next hout => simp [hout]

theorem tightestAmong_eq_none {best : Option Outline} : ∀ os : List Outline,
    tightestAmong p best os = none ↔ best = none ∧ ∀ o, Shows p os o → o.isFunctionLike = false
  | [] => by
    refine ⟨fun h => ⟨h, fun o hshows => nomatch hshows⟩, fun h => h.1⟩
  | o :: os => by
    rw [tightestAmong, tightestAmong_eq_none os, tightestIn_eq_none o, and_assoc]
    simp only [shows_cons, or_imp, forall_and]

end

/-- The outline shows a function unless no node around the position is one. -/
theorem tightest?_eq_none {os : List Outline} :
    tightest? p os = none ↔ ∀ o, Shows p os o → o.isFunctionLike = false :=
  (tightestAmong_eq_none os).trans (by simp)

end Outline

namespace Scope

variable {d : Document} {p : Position} {scope : Scope}

theorem ofOutline_contains {symbols : List Outline} (h : ofOutline symbols p = some scope) :
    scope.range.contains p = true := by
  obtain ⟨o, ho, rfl⟩ := Option.map_eq_some_iff.mp h
  exact Outline.tightest?_contains ho

/-- The header starts before the offset that the cursor was cut down to. The closing brace stands at that
offset or after it, so its end comes after the cursor itself. -/
theorem ofBraces_contains {window : Int} (h : ofBraces window d p = .ok (some scope)) :
    scope.range.contains p = true := by
  rcases ofBraces_cases window d p with ⟨hr, -⟩ | ⟨s, e, found, r, hi, hr, hstart, hstop⟩
  · cases hr.symm.trans h
  · cases hr.symm.trans h
    have hbrace := hi.around.block.closes
    have hplain : ¬ Text.IsBreak '}' := by simp [Text.IsBreak]
    rw [Range.contains_iff, hstart, hstop]
    constructor
    · have hle : headerStart window s found ≤ d.offsetAt p :=
        Nat.le_trans (headerStart_le hi.header) (Nat.le_of_lt hi.around.opened)
      exact Position.le_trans (d.positionAt_mono hle) (d.positionAt_offsetAt_le p)
    · exact Position.lt_of_le_of_lt (Document.le_positionAt hi.around.closing hbrace hplain)
        (Document.positionAt_lt_succ hbrace hplain)

end Scope

namespace Locator

variable {σ : Type}

theorem shown?_contains {l : Locator σ} {d : Document} {p : Position} {s : Session σ} {scope : Scope}
    (h : l.shown? d p s = some scope) : scope.range.contains p = true := by
  obtain ⟨outline, -, h⟩ := Option.bind_eq_some_iff.mp h
  obtain ⟨symbols, -, h⟩ := Option.bind_eq_some_iff.mp h
  exact Scope.ofOutline_contains h

/-- Looking for the scope always comes to an answer, and a scope that it comes to is a span around the
cursor. -/
theorem located_contains (l : Locator σ) (d : Document) (p : Position) (s : Session σ) :
    ∃ found, ((l.locate d p).run s).1 = .ok found ∧
      ∀ scope ∈ found, scope.range.contains p = true ∧ scope.range.start ≤ p ∧
        p < scope.range.stop ∧ scope.range.start ≤ scope.range.stop := by
  have hspan {scope : Scope} (h : scope.range.contains p = true) :
      scope.range.contains p = true ∧ scope.range.start ≤ p ∧ p < scope.range.stop ∧
        scope.range.start ≤ scope.range.stop :=
    ⟨h, (Range.contains_iff.mp h).1, (Range.contains_iff.mp h).2, scope.range.ordered⟩
  rw [l.locate_outcome]
  cases hs : l.shown? d p s with
  | some scope =>
    refine ⟨some scope, rfl, fun scope' hmem => ?_⟩
    cases hmem
    exact hspan (shown?_contains hs)
  | none =>
    obtain ⟨found, hf⟩ := Scope.ofBraces_ok l.window d p
    refine ⟨found, hf, fun scope hmem => ?_⟩
    cases hmem
    exact hspan (Scope.ofBraces_contains hf)

/-- One line break of each kind; the text ends with one. -/
def mixedBreaks : Document :=
  ⟨"file:///mixed.js", "function f() \x7b\r\n  a();\r  b();\n\x7d\r\n", none, 0⟩

def mixedBreaksScope : Scope := ⟨⟨⟨0, 0⟩, ⟨3, 1⟩, by decide⟩, "f"⟩

/-- The cursor is past the end of a line that ends with a lone `\r`. -/
theorem located_contains_mixedBreaks :
    let l : Locator Unit := ⟨none, 200⟩
    ((l.locate mixedBreaks ⟨1, 40⟩).run ⟨(), []⟩).1 = .ok (some mixedBreaksScope) ∧
      mixedBreaksScope.range.start ≤ ⟨1, 40⟩ ∧ ⟨1, 40⟩ < mixedBreaksScope.range.stop := by
  intro l
  have hl : ((l.locate mixedBreaks ⟨1, 40⟩).run ⟨(), []⟩).1 = .ok (some mixedBreaksScope) := by
    decide +kernel
  obtain ⟨found, hf, hall⟩ := located_contains l mixedBreaks ⟨1, 40⟩ ⟨(), []⟩
  cases hl.symm.trans hf
  obtain ⟨-, hstart, hstop, -⟩ := hall mixedBreaksScope rfl
  exact ⟨hl, hstart, hstop⟩

end Locator

end Callees

import Mathlib.Data.Nat.Find
import Callees.Proofs.BodyExtent
import Callees.Proofs.BraceScope

namespace Callees.Block

variable {text : List Char} {x y : Nat}

/-- The first `{` from a place on, where there is one. -/
theorem first_open (hxy : x ≤ y) (hopen : text[y]? = some '{') : ∃ a, x ≤ a ∧ a ≤ y ∧
    text[a]? = some '{' ∧ ∀ i, x ≤ i → i < a → text[i]? ≠ some '{' := by
  have hex : ∃ a, x ≤ a ∧ text[a]? = some '{' := ⟨y, hxy, hopen⟩
  obtain ⟨hxa, ha⟩ := Nat.find_spec hex
  exact ⟨Nat.find hex, hxa, Nat.find_min' hex ⟨hxy, hopen⟩, ha,
    fun i hi hlt hc => Nat.find_min hex hlt ⟨hi, hc⟩⟩

/-- Where the level never goes below where it began, the first brace is a `{`. -/
theorem no_close_before_open {a s : Nat} (has : a ≤ s)
    (hrange : ∀ i, x ≤ i → i ≤ s → level text x ≤ level text i)
    (hfirst : ∀ i, x ≤ i → i < a → text[i]? ≠ some '{') {i : Nat} (hi : x ≤ i) (hia : i < a) :
    text[i]? ≠ some '}' := by
  intro hc
  have hdown := level_close hc
  have hle := level_le_of_no_open hi fun j hj hji => hfirst j hj (by omega)
  have := hrange (i + 1) (by omega) (by omega)
  omega

/-- Where the level moreover rises by one at most and comes back, the first `}` closes that brace. If
there is no brace, the block that opens at `s` comes first. -/
theorem first_close {a s e : Nat} (hse : IsBlock text s e)
    (hrange : ∀ i, x ≤ i → i ≤ s → level text x ≤ level text i ∧ level text i ≤ level text x + 1)
    (htotal : level text s = level text x) (hxa : x ≤ a) (has : a ≤ s)
    (hopen : text[a]? = some '{') (hfirst : ∀ i, x ≤ i → i < a → text[i]? ≠ some '{') :
    ∃ f, FallsAt text (level text (a + 1)) (a + 1) f ∧ f ≤ e ∧ (f < s ∨ f = e) ∧
      ∀ q, x ≤ q → q < s → q < f → text[q]? ≠ some '}' := by
  have hbefore {i : Nat} (hi : x ≤ i) (hia : i < a) : text[i]? ≠ some '}' :=
    no_close_before_open has (fun j hj hjs => (hrange j hj hjs).1) hfirst hi hia
  have hup := level_open hopen
  have hlow := (hrange a hxa has).1
  have hlt := hse.lt
  rcases Nat.eq_or_lt_of_le has with rfl | has
  · exact ⟨e, (isBlock_iff_fallsAt.mp hse).2, Nat.le_refl e, .inr rfl, fun q hq hqs _ => hbefore hq hqs⟩
  · have hne : a + 1 ≠ s := by
      rintro rfl
      omega
    have hback : level text (s - 1 + 1) < level text (a + 1) := by
      rw [Nat.sub_add_cancel (by omega)]
      omega
    obtain ⟨f, hf⟩ := fallsAt_exists (Int.le_refl _) (show a + 1 ≤ s - 1 by omega) hback
    have hfs : f < s := by
      apply Nat.lt_of_not_le
      intro hsf
      have := hf.above s has hsf
      omega
    refine ⟨f, hf, by omega, .inl hfs, fun q hq hqs hqf hc => ?_⟩
    rcases Nat.lt_trichotomy q a with hqa | rfl | haq
    · exact hbefore hq hqa hc
    · cases hopen.symm.trans hc
    · have hdown := level_close hc
      have := (hrange q hq (by omega)).2
      have := hf.above (q + 1) (by omega) hqf
      omega

end Callees.Block

namespace Callees.Document

open Text

/-- What stands before a position on its line. -/
def lead (d : Document) (p : Position) : List Char :=
  (d.lineTexts[p.line]?.getD []).take p.character

/-- On its line, nothing before a position but what `lead` has, and line breaks. -/
theorem lead_at (d : Document) {a i n : Nat} {l : Line} (ha : a ≤ d.chars.length)
    (hl : lineOf a 0 d.lines = some (n, l)) (hi : l.start ≤ i) (hia : i < a) {c : Char}
    (hc : d.chars[i]? = some c) : c ∈ d.lead (d.positionAt a) ∨ IsBreak c := by
  obtain ⟨-, hget, hstart⟩ := lineOf_get hl
  rw [Nat.sub_zero] at hget
  obtain ⟨j, m, hj, -, hcase⟩ := d.lines_cases (show i < d.chars.length by omega)
  have hsame : j = n ∧ m = l := by
    obtain ⟨n', l', hl', hlt⟩ := lineOf_mono (Nat.le_of_lt hia) hj
    cases hl.symm.trans hl'
    have hle : n ≤ j := by
      have hdrop : lineOf i 0 d.lines = lineOf i (0 + n) (d.lines.drop n) :=
        lineOf_drop (lines_layout d.chars) hget hi
      rw [hdrop, Nat.zero_add] at hj
      exact le_lineOf hj
    rcases hlt with hlt | heq
    · omega
    · exact heq
  obtain ⟨rfl, rfl⟩ := hsame
  rcases hcase with ⟨hstop, hat, -⟩ | ⟨-, b, hb, hbreak⟩
  · left
    have hlt : i - m.start < min (a - m.start) m.chars.length := by
      simp only [Line.stop] at hstop
      omega
    rw [lead, d.positionAt_eq ha hl, lineTexts, List.getElem?_map, hget]
    refine List.mem_of_getElem? (i := i - m.start) ?_
    rw [List.getElem?_take_of_lt hlt]
    exact hat.symm.trans hc
  · cases hc.symm.trans hb
    exact .inr hbreak

end Callees.Document

namespace Callees.Scope

open Block

variable {window : Int} {d : Document} {p : Position} {s e : Nat} {found : Header.Found}

theorem header_shallow {text : List Char} (h : headerBefore window text s = some found) :
    Shallow (Document.slice text (headerStart window s found) s) := by
  have hshallow := Header.find?_shallow h
  rw [Document.slice, List.drop_drop] at hshallow
  exact hshallow

theorem shallow_levels {text : List Char} {x : Nat} (hxs : x ≤ s)
    (h : Shallow (Document.slice text x s)) :
    (∀ i, x ≤ i → i ≤ s → level text x ≤ level text i ∧ level text i ≤ level text x + 1) ∧
    level text s = level text x := by
  refine ⟨fun i hi hi' => ?_, by rw [level_slice text hxs, h.total, Int.add_zero]⟩
  have hdeep := h.one_deep (i - x)
  rw [take_slice, Nat.add_sub_cancel' hi, Nat.min_eq_left hi'] at hdeep
  rw [level_slice text hi]
  omega

/-- The brace on which the body closes that starts on the header's line: the first `}` of the header
if it has one, and else the block's own. -/
structure BodyCloses (d : Document) (x s e : Nat) (body : Body) (f : Nat) : Prop where
  collected : body? d.lineTexts (d.positionAt x).line = some body
  lines : body.lines = (d.lineTexts.drop (d.positionAt x).line).take
    (body.endLine + 1 - (d.positionAt x).line)
  endLine : body.endLine = (d.positionAt f).line
  brace : d.chars[f]? = some '}'
  within : x ≤ f ∧ f ≤ e
  which : f < s ∨ f = e
  first : ∀ q, x ≤ q → q < s → q < f → d.chars[q]? ≠ some '}'

/-- No brace stands before the position on its line. -/
def PlainLead (d : Document) (p : Position) : Prop := '{' ∉ d.lead p ∧ '}' ∉ d.lead p

/-- No brace stands between the start of a line and the header on it. -/
theorem PlainLead.plain {x n : Nat} {l : Text.Line} (hlead : PlainLead d (d.positionAt x))
    (hx : x ≤ d.chars.length) (hl : Document.lineOf x 0 d.lines = some (n, l)) {i : Nat}
    (hi : l.start ≤ i) (hix : i < x) : d.chars[i]? ≠ some '{' ∧ d.chars[i]? ≠ some '}' := by
  constructor
  · intro hc
    rcases d.lead_at hx hl hi hix hc with hin | hbreak
    · exact hlead.1 hin
    · simp [Text.IsBreak] at hbreak
  · intro hc
    rcases d.lead_at hx hl hi hix hc with hin | hbreak
    · exact hlead.2 hin
    · simp [Text.IsBreak] at hbreak

theorem body?_closes (hi : Innermost window d p s e found)
    (hlead : PlainLead d (d.positionAt (headerStart window s found))) :
    ∃ body f, BodyCloses d (headerStart window s found) s e body f := by
  have hxs := headerStart_le hi.header
  obtain ⟨hrange, htotal⟩ := shallow_levels hxs (header_shallow hi.header)
  generalize headerStart window s found = x at *
  have hblock := hi.around.block
  have hlen := (List.getElem?_eq_some_iff.mp hblock.opens).1
  obtain ⟨n, l, hl, hstart, -⟩ := d.lines_cases (show x < d.chars.length by omega)
  have hline : (d.positionAt x).line = n := by rw [d.positionAt_eq (by omega) hl]
  obtain ⟨-, hget, -⟩ := Document.lineOf_get hl
  -- the first brace from the start of the line on is the first `{` of the header, or the block's own
  obtain ⟨a, hxa, has, hopen, hmin⟩ := first_open hxs hblock.opens
  obtain ⟨f, hf, hfe, hfs, hnone⟩ := first_close hblock hrange htotal hxa has hopen hmin
  have hplain (i : Nat) (hi : l.start ≤ i) (hia : i < a) :
      d.chars[i]? ≠ some '{' ∧ d.chars[i]? ≠ some '}' := by
    rcases Nat.lt_or_ge i x with hlt | hge
    · exact hlead.plain (by omega) hl hi hlt
    · exact ⟨hmin i hge hia,
        no_close_before_open has (fun j hj hjs => (hrange j hj hjs).1) hmin hge hia⟩
  obtain ⟨body, hb, hlines, hend⟩ := body?_of_falls hget ⟨by omega, hopen, hplain⟩ hf
  have hle := hf.le
  exact ⟨body, f, hline.symm ▸ hb, hline.symm ▸ hlines, hend, hf.closes.1, by omega, hfs, hnone⟩

/-- A body is collected for every scope that has no brace before it on its line. It ends where the scope
does exactly if every `}` of the header stands on the scope's last line. -/
theorem body_ends_with_scope (window : Int) (d : Document) (p : Position) (scope : Scope)
    (hs : ofBraces window d p = .ok (some scope)) (hlead : PlainLead d scope.range.start) :
    ∃ s e found body, Innermost window d p s e found ∧
      scope.range.start = d.positionAt (headerStart window s found) ∧
      body? d.lineTexts scope.range.start.line = some body ∧
      body.lines = (d.lineTexts.drop scope.range.start.line).take
        (body.endLine + 1 - scope.range.start.line) ∧
      (body.endLine = scope.range.stop.line ↔
        ∀ q : Nat, headerStart window s found ≤ q → q < s → d.chars[q]? = some '}' →
          (d.positionAt q).line = scope.range.stop.line) := by
  rcases ofBraces_cases window d p with ⟨hr, -⟩ | ⟨s, e, found, r, hi, hr, hstart, hstop⟩
  · cases hs.symm.trans hr
  cases hs.symm.trans hr
  simp only at hlead ⊢
  rw [hstart] at hlead
  obtain ⟨body, f, hf⟩ := body?_closes hi hlead
  have hclosed := hi.around.block.closes
  have hlast : r.stop.line = (d.positionAt e).line := by
    rw [hstop, d.positionAt_succ_line hclosed (by simp [Text.IsBreak])]
  have hline {a b : Nat} (hab : a ≤ b) : (d.positionAt a).line ≤ (d.positionAt b).line := by
    rcases Position.le_iff.mp (d.positionAt_mono hab) with hlt | ⟨heq, -⟩
    · exact Nat.le_of_lt hlt
    · exact Nat.le_of_eq heq
  refine ⟨s, e, found, body, hi, hstart, hstart ▸ hf.collected, hstart ▸ hf.lines, ?_⟩
  rw [hf.endLine, hlast]
  constructor
  · intro heq q hq hqs hbrace
    have hfq : f ≤ q := Nat.le_of_not_lt fun hlt => hf.first q hq hqs hlt hbrace
    have hlt := hi.around.block.lt
    have := hline hfq
    have := hline (show q ≤ e by omega)
    omega
  · intro hall
    rcases hf.which with hfs | rfl
    · exact hall f hf.within.1 hfs hf.brace
    · rfl

/-- A function that starts further right than its line. -/
def arrowValue : Document := ⟨"file:///arrow.js", "  const f = (a) => \x7b\n    g(a);\n  \x7d;", none, 0⟩

def arrowValueScope : Scope := ⟨⟨⟨0, 8⟩, ⟨2, 3⟩, by decide⟩, "f"⟩

theorem body_ends_with_scope_arrowValue : ∃ s e found body,
    Innermost 200 arrowValue ⟨1, 4⟩ s e found ∧
      arrowValueScope.range.start = arrowValue.positionAt (headerStart 200 s found) ∧
      body? arrowValue.lineTexts arrowValueScope.range.start.line = some body ∧
      body.lines = (arrowValue.lineTexts.drop arrowValueScope.range.start.line).take
        (body.endLine + 1 - arrowValueScope.range.start.line) ∧
      (body.endLine = arrowValueScope.range.stop.line ↔
        ∀ q : Nat, headerStart 200 s found ≤ q → q < s → arrowValue.chars[q]? = some '}' →
          (arrowValue.positionAt q).line = arrowValueScope.range.stop.line) :=
  body_ends_with_scope 200 arrowValue ⟨1, 4⟩ arrowValueScope (by decide +kernel)
    ⟨by decide +kernel, by decide +kernel⟩

/-- Its parameter is taken apart in braces of its own. -/
def takenApart : Document :=
  ⟨"file:///load.js", "function load(\x7b path \x7d) \x7b\n  read(path);\n\x7d", none, 0⟩

def takenApartScope : Scope := ⟨⟨⟨0, 0⟩, ⟨2, 1⟩, by decide⟩, "load"⟩

/-- The `}` of a parameter list ends the body before it has begun. -/
theorem body_cut_short : ¬ ∀ (window : Int) (d : Document) (p : Position) (scope : Scope),
    ofBraces window d p = .ok (some scope) → PlainLead d scope.range.start →
      ∃ body, body? d.lineTexts scope.range.start.line = some body ∧
        body.endLine = scope.range.stop.line := by
  intro h
  obtain ⟨body, hb, he⟩ := h 200 takenApart ⟨1, 2⟩ takenApartScope (by decide +kernel)
    ⟨by decide +kernel, by decide +kernel⟩
  have hcut : body? takenApart.lineTexts takenApartScope.range.start.line =
      some ⟨["function load(\x7b path \x7d) \x7b".toList], 0⟩ := by decide +kernel
  cases hcut.symm.trans hb
  cases he

end Callees.Scope

import Callees.Proofs.LocalMatches
import Callees.Proofs.ScopeBody

namespace Callees.Block

variable {text : List Char}

/-- A block that begins before another one, with nothing closed in between, closes no earlier. -/
theorem FallsAt.outer {a b e k : Nat} (he : FallsAt text (level text (a + 1)) (a + 1) e)
    (hk : FallsAt text (level text (b + 1)) (b + 1) k) (hab : a ≤ b) (hopen : text[b]? = some '{')
    (hclose : ∀ i, a ≤ i → i < b → text[i]? ≠ some '}') : k ≤ e := by
  have hbelow := he.below
  have hinner : level text (a + 1) ≤ level text (b + 1) := by
    rcases Nat.eq_or_lt_of_le hab with rfl | hlt
    · exact Int.le_refl _
    · have hup := level_open hopen
      have hle := le_level_of_no_close (show a + 1 ≤ b from hlt) fun i hi hi' => hclose i (by omega) hi'
      omega
  apply Nat.le_of_not_lt
  intro hek
  rcases Nat.lt_or_ge e b with hlt | hge
  · have hle := he.le
    have hrise := le_level_of_no_close (show a + 1 ≤ e + 1 by omega) fun i hi hi' =>
      hclose i (by omega) (by omega)
    omega
  · have hstays := hk.above (e + 1) (by omega) (by omega)
    omega

end Callees.Block

namespace Callees.Definition

open Pattern Block Text

variable {name : String} {d : Document}

/-- Where nothing closes between the start of a line and a brace, the body that is collected from that line on
reaches the brace that closes the block. -/
theorem body?_reaches {n a k : Nat} {l : Line} {body : Body} (hl : d.lines[n]? = some l) (ha : l.start ≤ a)
    (hopen : d.chars[a]? = some '{') (hclose : ∀ i, l.start ≤ i → i < a → d.chars[i]? ≠ some '}')
    (hk : FallsAt d.chars (level d.chars (a + 1)) (a + 1) k) (hb : body? d.lineTexts n = some body) :
    (d.positionAt k).line ≤ body.endLine := by
  -- the first brace from the start of the line on opens a block, perhaps an outer one
  obtain ⟨f, hle, hfa, hfirst, hmin⟩ := first_open ha hopen
  have hopens : OpensFirst d.chars l.start f :=
    ⟨hle, hfirst, fun i hi hif => ⟨hmin i hi hif, hclose i hi (by omega)⟩⟩
  have hagrees := body?_agrees d hl hopens
  rw [hb] at hagrees
  cases hagrees with
  | @closed _ e _ falls =>
    obtain ⟨body', hb', -, hend⟩ := body?_of_falls hl hopens falls
    cases hb.symm.trans hb'
    rw [hend]
    exact d.line_mono (falls.outer hk hfa hopen fun i hi hi' => hclose i (by omega) hi')

/-- The braces of the block that opens first at or behind an offset. -/
structure OpensFrom (d : Document) (o a k : Nat) : Prop where
  le : o ≤ a
  opens : d.chars[a]? = some '{'
  first : ∀ i, o ≤ i → i < a → d.chars[i]? ≠ some '{'
  closes : stop? d.chars (a + 1 : Nat) = some k

/-- The offset is on a line of the definition. -/
def Covers (x : Definition) (d : Document) (o : Nat) : Prop :=
  x.startLine ≤ (d.positionAt o).line ∧ (d.positionAt o).line ≤ x.endLine

/-- The lines from that of one offset to before that of another one. -/
def linesBefore (d : Document) (o k : Nat) : List (List Char) :=
  (d.lineTexts.drop (d.positionAt o).line).take ((d.positionAt k).line - (d.positionAt o).line)

/-- A definition has both braces of the block behind its match exactly if no block closes between the start of
the match's line and the line where that block does. So it has them wherever no brace closes between the start
of the line and the block. -/
theorem inText_covers {x : Definition} (h : inText name d = .ok (some x)) :
    ∃ i m body, First name d i m body ∧ Made name d m body x ∧ ∀ a k, OpensFrom d m.start a k →
      (x.Covers d a ∧ x.Covers d k ↔ ¬ Closes (linesBefore d m.start k).flatten) ∧
      ((∀ j < a, (d.positionAt m.start).line ≤ (d.positionAt j).line → d.chars[j]? ≠ some '}') →
        x.Covers d a ∧ x.Covers d k) := by
  rcases inText_cases name d with ⟨-, hnone⟩ | ⟨i, m, body, x', hfirst, hmade, hsome⟩
  · cases hnone.symm.trans h
  cases hsome.symm.trans h
  refine ⟨i, m, body, hfirst, hmade, fun a k hblock => ?_⟩
  have hb : body? d.lineTexts (d.positionAt m.start).line = some body := hfirst.block
  have hk := stop?_eq_some.mp hblock.closes
  have hstart := d.line_mono hblock.le
  have hinside := d.line_mono (show a ≤ k by have := hk.le; omega)
  have hcovers : x.Covers d a ∧ x.Covers d k ↔ (d.positionAt k).line ≤ body.endLine := by
    simp only [Covers, hmade.first, hmade.last]
    omega
  rw [hcovers]
  constructor
  · rw [linesBefore, ← (body?_some hb).2.2]
    omega
  · intro hplain
    have hlt := Nat.lt_of_le_of_lt hblock.le (List.getElem?_eq_some_iff.mp hblock.opens).1
    obtain ⟨n, l, hl, hle, -⟩ := d.lines_cases hlt
    have hn : (d.positionAt m.start).line = n := by rw [d.positionAt_eq (Nat.le_of_lt hlt) hl]
    have hget : d.lines[n]? = some l := (Document.lineOf_get hl).2.1
    have hclose (i : Nat) (hi : l.start ≤ i) (hia : i < a) : d.chars[i]? ≠ some '}' := by
      have hfrom := d.line_mono hi
      rw [show d.positionAt l.start = ⟨n, 0⟩ from d.positionAt_of_line hget (Nat.zero_le _)] at hfrom
      exact hplain i hia (hn ▸ hfrom)
    rw [hn] at hb
    exact body?_reaches hget (Nat.le_trans hle hblock.le) hblock.opens hclose hk hb

/-- The match stands behind a brace that is still open. -/
def member : Document :=
  ⟨"file:///w/a.js", "class A \x7b inner()\x7b\n  return 42;\n\x7d\n\x7d", none, 0⟩

def memberDefinition : Definition :=
  ⟨"inner", member.uri, ⟨⟨0, 10⟩, ⟨3, 1⟩, by decide⟩, "class A \x7b inner()\x7b\n  return 42;\n\x7d\n\x7d", 0, 3,
    .local_⟩

theorem inText_covers_member : inText "inner" member = .ok (some memberDefinition) ∧
    ∃ i m body, First "inner" member i m body ∧ Made "inner" member m body memberDefinition ∧
      ∀ a k, OpensFrom member m.start a k →
        (memberDefinition.Covers member a ∧ memberDefinition.Covers member k ↔
          ¬ Closes (linesBefore member m.start k).flatten) ∧
        ((∀ j < a, (member.positionAt m.start).line ≤ (member.positionAt j).line →
            member.chars[j]? ≠ some '}') →
          memberDefinition.Covers member a ∧ memberDefinition.Covers member k) := by
  have hfound : inText "inner" member = .ok (some memberDefinition) := by decide +kernel
  exact ⟨hfound, inText_covers hfound⟩

/-- The function is behind another one on the line where it begins. -/
def behind : Document :=
  ⟨"file:///w/a.js", "function outer()\x7b inner(); \x7d function inner()\x7b\n  return 42;\n\x7d", none, 0⟩

def behindDefinition : Definition :=
  ⟨"inner", behind.uri, ⟨⟨0, 29⟩, ⟨0, 46⟩, by decide⟩,
    "function outer()\x7b inner(); \x7d function inner()\x7b", 0, 0, .local_⟩

/-- The block of the other function ends the definition. -/
theorem inText_cut_short : ¬ ∀ (name : String) (d : Document) (x : Definition) (i : Nat) (m : Match)
    (body : Body) (a k : Nat), inText name d = .ok (some x) → First name d i m body →
      Made name d m body x → OpensFrom d m.start a k → x.Covers d a ∧ x.Covers d k := by
  intro h
  have hfound : inText "inner" behind = .ok (some behindDefinition) := by decide +kernel
  rcases inText_cases "inner" behind with ⟨-, hnone⟩ | ⟨i, m, body, x, hfirst, hmade, hsome⟩
  · cases hnone.symm.trans hfound
  cases hsome.symm.trans hfound
  have hplaces : ∀ y ∈ tried "inner" behind,
      behind.positionAt y.2.start = behindDefinition.range.start → y.2.start = 29 := by decide +kernel
  have hstart := hplaces (i, m) (mem_tried.mpr hfirst.isMatch) hmade.start.symm
  have hblock : OpensFrom behind m.start 45 60 := by
    rw [hstart]
    exact ⟨by decide, by decide +kernel, by decide +kernel, by decide +kernel⟩
  have hcovers := (h _ _ _ i m body 45 60 hfound hfirst hmade hblock).2.2
  have hline : (behind.positionAt (60 : Nat)).line = 2 := by decide +kernel
  rw [hline] at hcovers
  exact absurd hcovers (by decide)

end Callees.Definition

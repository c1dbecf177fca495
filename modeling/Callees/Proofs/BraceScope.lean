import Callees.Proofs.HeaderText
import Callees.Proofs.Lines
import Callees.Scope

namespace Callees.Block

/-- Each round of the search goes on from an earlier brace, so there are only so many. -/
theorem outward_length_le (text : List Char) (a b : Nat) : (outward text a b).length ≤ a := by
  fun_induction outward text a b with
  | case1 a b s e hs he ih =>
    have hlt := start?_lt hs
    simp only [List.length_cons]
    omega
  | case2 => exact Nat.zero_le _

end Callees.Block

namespace Callees.Scope

open Block

/-- The header right before offset `s`, in the window. -/
def headerBefore (window : Int) (text : List Char) (s : Nat) : Option Header.Found :=
  Header.find? (Document.slice text (s - window).toNat s)

/-- Where in the text that header starts. -/
def headerStart (window : Int) (s : Nat) (found : Header.Found) : Nat :=
  (s - window).toNat + found.start

theorem headerStart_le {window : Int} {text : List Char} {s : Nat} {found : Header.Found}
    (h : headerBefore window text s = some found) : headerStart window s found ≤ s := by
  rw [headerStart]
  have hle := (Header.find?_reads h).1
  rw [Document.slice, List.length_drop, List.length_take] at hle
  rcases Nat.lt_or_ge s (s - window).toNat with hlt | hge
  · have hnil : Document.slice text (s - window).toNat s = [] := by
      rw [Document.slice, List.drop_eq_nil_iff, List.length_take]
      omega
    rw [headerBefore, hnil, Header.find?_nil] at h
    cases h
  · omega

theorem spanning_ok (d : Document) {start stop : Nat} (h : start ≤ stop) :
    ∃ r, spanning d start stop = .ok r ∧ r.start = d.positionAt start ∧
      r.stop = d.positionAt stop :=
  ⟨⟨_, _, d.positionAt_mono h⟩, Range.between_ok _, rfl, rfl⟩

theorem functionOf_eq (window : Int) (text : List Char) (s e : Nat) :
    functionOf window text (s, e) = (headerBefore window text s).map fun found =>
      (headerStart window s found, found.name.getD anonymous, e) := by
  simp only [functionOf, headerOf, preamble, headerBefore, headerStart, Option.map_map]
  rfl

/-- A block around the cursor with a header, where none further in has one. -/
structure Innermost (window : Int) (d : Document) (p : Position) (s e : Nat)
    (found : Header.Found) : Prop where
  around : Around d.chars (d.offsetAt p) (d.offsetAt p) s e
  header : headerBefore window d.chars s = some found
  nearest : ∀ s' e', Around d.chars (d.offsetAt p) (d.offsetAt p) s' e' → s < s' →
    headerBefore window d.chars s' = none

variable {window : Int} {d : Document} {p : Position}

theorem Innermost.unique {s e s' e' : Nat} {found found' : Header.Found}
    (h : Innermost window d p s e found) (h' : Innermost window d p s' e' found') :
    s = s' ∧ e = e' ∧ found = found' := by
  have hs : s = s' := by
    rcases Nat.lt_trichotomy s s' with hlt | heq | hlt
    · cases (h.nearest s' e' h'.around hlt).symm.trans h'.header
    · exact heq
    · cases (h'.nearest s e h.around hlt).symm.trans h.header
  subst hs
  exact ⟨rfl, Nat.le_antisymm (h.around.block.stop_le h'.around.block)
    (h'.around.block.stop_le h.around.block), Option.some.inj (h.header.symm.trans h'.header)⟩

/-- The first block on the way outward that has a header is the innermost one. -/
theorem Innermost.of_first {s e : Nat} {found : Header.Found} {inside outside : List (Nat × Nat)}
    (hsplit : outward d.chars (d.offsetAt p) (d.offsetAt p) = inside ++ (s, e) :: outside)
    (hinside : ∀ block ∈ inside, functionOf window d.chars block = none)
    (hheader : headerBefore window d.chars s = some found) : Innermost window d p s e found := by
  have hbalanced := balanced_empty d.chars (d.offsetAt p)
  have hsorted := outward_inside_out (Nat.le_refl _) hbalanced
  refine ⟨?_, hheader, fun s' e' ha hlt => ?_⟩
  · rw [← mem_outward (Nat.le_refl _) hbalanced, hsplit]
    exact List.mem_append_right _ List.mem_cons_self
  · rw [← mem_outward (Nat.le_refl _) hbalanced, hsplit] at ha
    rw [hsplit] at hsorted
    obtain ⟨-, hcons, -⟩ := List.pairwise_append.mp hsorted
    rcases List.mem_append.mp ha with hm | hm
    · have h := hinside _ hm
      rw [functionOf_eq] at h
      exact Option.map_eq_none_iff.mp h
    · rcases List.mem_cons.mp hm with heq | hm
      · cases heq
        exact absurd hlt (Nat.lt_irrefl _)
      · have := (List.pairwise_cons.mp hcons).1 _ hm
        simp only at this
        omega

theorem ofBraces_cases (window : Int) (d : Document) (p : Position) :
    (ofBraces window d p = .ok none ∧
      ∀ s e, Around d.chars (d.offsetAt p) (d.offsetAt p) s e →
        headerBefore window d.chars s = none) ∨
    ∃ s e found r, Innermost window d p s e found ∧
      ofBraces window d p = .ok (some ⟨r, found.name.getD anonymous⟩) ∧
      r.start = d.positionAt (headerStart window s found) ∧
      r.stop = d.positionAt (e + 1 : Nat) := by
  cases hfind : (outward d.chars (d.offsetAt p) (d.offsetAt p)).findSome?
      (functionOf window d.chars) with
  | none =>
    refine .inl ⟨by simp only [ofBraces, hfind], fun s e ha => ?_⟩
    rw [← mem_outward (Nat.le_refl _) (balanced_empty ..)] at ha
    have h := List.findSome?_eq_none_iff.mp hfind (s, e) ha
    rw [functionOf_eq] at h
    exact Option.map_eq_none_iff.mp h
  | some hit =>
    obtain ⟨inside, ⟨s, e⟩, outside, hsplit, hhere, hinside⟩ := List.findSome?_eq_some_iff.mp hfind
    rw [functionOf_eq] at hhere
    obtain ⟨found, hfound, rfl⟩ := Option.map_eq_some_iff.mp hhere
    have hi : Innermost window d p s e found := .of_first hsplit hinside hfound
    have hstart := headerStart_le hfound
    have hlt := hi.around.block.lt
    obtain ⟨r, hr, hrs, hre⟩ := spanning_ok d (show headerStart window s found ≤ e + 1 by omega)
    refine .inr ⟨s, e, found, r, hi, ?_, hrs, hre⟩
    simp only [ofBraces, hfind, hr]
    rfl

theorem ofBraces_ok (window : Int) (d : Document) (p : Position) :
    ∃ found, ofBraces window d p = .ok found := by
  rcases ofBraces_cases window d p with ⟨hr, -⟩ | ⟨s, e, found, r, -, hr, -⟩
  · exact ⟨none, hr⟩
  · exact ⟨_, hr⟩

/-- The search finds nothing exactly where no block around the cursor has a header, and otherwise the
innermost of those that have one. It never fails and it ends. -/
theorem ofBraces_innermost (window : Int) (d : Document) (p : Position) :
    (ofBraces window d p = .ok none ↔
      ∀ s e, Around d.chars (d.offsetAt p) (d.offsetAt p) s e →
        headerBefore window d.chars s = none) ∧
    (∀ scope, ofBraces window d p = .ok (some scope) ↔
      ∃ s e found, Innermost window d p s e found ∧ scope.name = found.name.getD anonymous ∧
        scope.range.start = d.positionAt (headerStart window s found) ∧
        scope.range.stop = d.positionAt (e + 1 : Nat)) ∧
    (∃ result, ofBraces window d p = .ok result) ∧
    (outward d.chars (d.offsetAt p) (d.offsetAt p)).length ≤ d.offsetAt p := by
  rcases ofBraces_cases window d p with ⟨hr, hnone⟩ | ⟨s, e, found, r, hi, hr, hstart, hstop⟩
  · refine ⟨⟨fun _ => hnone, fun _ => hr⟩, fun scope => ⟨fun h => ?_, ?_⟩, ⟨_, hr⟩,
      outward_length_le ..⟩
    · cases hr.symm.trans h
    · rintro ⟨s, e, found, hi, -⟩
      cases (hnone s e hi.around).symm.trans hi.header
  · refine ⟨⟨fun h => ?_, fun hnone => ?_⟩, fun scope => ⟨fun h => ?_, ?_⟩, ⟨_, hr⟩,
      outward_length_le ..⟩
    · cases hr.symm.trans h
    · cases (hnone s e hi.around).symm.trans hi.header
    · cases hr.symm.trans h
      exact ⟨s, e, found, hi, rfl, hstart, hstop⟩
    · rintro ⟨s', e', found', hi', hname, hstart', hstop'⟩
      obtain ⟨rfl, rfl, rfl⟩ := hi.unique hi'
      have hrange : scope.range = r :=
        Range.ext (hstart'.trans hstart.symm) (hstop'.trans hstop.symm)
      rw [hr, ← hname, ← hrange]

end Callees.Scope

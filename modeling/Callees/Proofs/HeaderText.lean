import Callees.Proofs.Blocks
import Callees.Proofs.Matching
import Callees.Scope.Header

namespace Callees.Block

/-- No brace is nested in another, and each is closed. -/
structure Shallow (w : List Char) : Prop where
  one_deep : ∀ n, 0 ≤ net (w.take n) ∧ net (w.take n) ≤ 1
  total : net w = 0

theorem shallow_plain {w : List Char} (ho : '{' ∉ w) (hc : '}' ∉ w) : Shallow w := by
  refine ⟨fun n => ?_, net_eq_zero ho hc⟩
  rw [net_eq_zero (fun h => ho (List.mem_of_mem_take h)) fun h => hc (List.mem_of_mem_take h)]
  omega

theorem shallow_nil : Shallow [] := shallow_plain List.not_mem_nil List.not_mem_nil

theorem Shallow.append {u v : List Char} (hu : Shallow u) (hv : Shallow v) : Shallow (u ++ v) := by
  refine ⟨fun n => ?_, by rw [net_append, hu.total, hv.total]; rfl⟩
  rw [List.take_append]
  rcases Nat.le_total n u.length with hn | hn
  · rw [Nat.sub_eq_zero_of_le hn, List.take_zero, List.append_nil]
    exact hu.one_deep n
  · rw [List.take_of_length_le hn, net_append, hu.total, Int.zero_add]
    exact hv.one_deep _

theorem shallow_pair {w : List Char} (ho : '{' ∉ w) (hc : '}' ∉ w) :
    Shallow (['{'] ++ (w ++ ['}'])) := by
  have hw := net_eq_zero ho hc
  refine ⟨fun n => ?_, by rw [net_append, net_append, hw]; rfl⟩
  cases n with
  | zero => simp
  | succ n =>
    rw [List.singleton_append, List.take_succ_cons, ← List.singleton_append, net_append, net_open,
      List.take_append, net_append]
    rcases Nat.le_total n w.length with hn | hn
    · rw [Nat.sub_eq_zero_of_le hn, net_eq_zero (fun h => ho (List.mem_of_mem_take h)) fun h =>
        hc (List.mem_of_mem_take h)]
      simp
    · rw [List.take_of_length_le hn, hw]
      cases n - w.length <;> simp

end Callees.Block

namespace Callees.Pattern

open Block

/-- Every text that the pattern takes has the property. -/
def TakesOnly (P : List Char → Prop) (p : Pattern) : Prop :=
  ∀ s t, p.Reads s t → ∃ w, s.rest = w ++ t.rest ∧ P w

namespace TakesOnly

variable {P : List Char → Prop} {p q : Pattern}

theorem of_avoids (h : ∀ w, (∀ c, p.avoids c = true → c ∉ w) → P w) : p.TakesOnly P := by
  intro s t hr
  obtain ⟨w, hw, havoids⟩ := hr.takes
  exact ⟨w, hw, h w havoids⟩

theorem next (happ : ∀ u v, P u → P v → P (u ++ v)) (hp : p.TakesOnly P) (hq : q.TakesOnly P) :
    (next p q).TakesOnly P := by
  rintro s u (_ | _)
  rename_i t first second
  obtain ⟨v, hv, hsv⟩ := hp s t first
  obtain ⟨w, hw, hsw⟩ := hq t u second
  exact ⟨v ++ w, by rw [hv, hw, List.append_assoc], happ v w hsv hsw⟩

theorem either (hp : p.TakesOnly P) (hq : q.TakesOnly P) : (either p q).TakesOnly P := by
  intro s t h
  cases h with
  | left _ first => exact hp s t first
  | right _ second => exact hq s t second

theorem many (hnil : P []) (happ : ∀ u v, P u → P v → P (u ++ v)) (hp : p.TakesOnly P) :
    (many p).TakesOnly P := by
  intro s t h
  generalize hm : Pattern.many p = m at h
  induction h with
  | stop => exact ⟨[], rfl, hnil⟩
  | @turn _ s t u body _ _ _ ih =>
    cases hm
    obtain ⟨v, hv, hsv⟩ := hp s t body
    obtain ⟨w, hw, hsw⟩ := ih rfl
    exact ⟨v ++ w, by rw [hv, hw, List.append_assoc], happ v w hsv hsw⟩
  | _ => cases hm

/-- What stands between two signs. -/
theorem enclosed {a b : Char} (hp : p.TakesOnly P) :
    (all [char a, p, char b]).TakesOnly fun w => ∃ v, P v ∧ w = a :: (v ++ [b]) := by
  rintro s v (_ | _)
  rename_i t first rest
  cases rest with
  | next inside last =>
    cases first with
    | one hs ha =>
      cases last with
      | one hu hb =>
        obtain ⟨w, hw, hpw⟩ := hp _ _ inside
        cases eq_of_beq ha
        cases eq_of_beq hb
        refine ⟨_, ?_, w, hpw, rfl⟩
        simp only [Cursor.step] at hw ⊢
        rw [hs, hw, hu]
        simp

theorem mono {Q : List Char → Prop} (h : ∀ w, P w → Q w) (hp : p.TakesOnly P) : p.TakesOnly Q := by
  intro s t hr
  obtain ⟨w, hw, hpw⟩ := hp s t hr
  exact ⟨w, hw, h w hpw⟩

end TakesOnly

/-- Every text that the pattern takes is shallow. -/
def TakesShallow (p : Pattern) : Prop :=
  ∀ s t, p.Reads s t → ∃ w, s.rest = w ++ t.rest ∧ Shallow w

namespace TakesShallow

variable {p q : Pattern}

theorem plain (ho : p.avoids '{' = true) (hc : p.avoids '}' = true) : p.TakesShallow :=
  TakesOnly.of_avoids fun _ hw => shallow_plain (hw '{' ho) (hw '}' hc)

theorem next (hp : p.TakesShallow) (hq : q.TakesShallow) : (next p q).TakesShallow :=
  TakesOnly.next (fun _ _ => Shallow.append) hp hq

theorem either (hp : p.TakesShallow) (hq : q.TakesShallow) : (either p q).TakesShallow :=
  TakesOnly.either hp hq

theorem many (hp : p.TakesShallow) : (many p).TakesShallow :=
  TakesOnly.many shallow_nil (fun _ _ => Shallow.append) hp

/-- A pair of braces with none between them. -/
theorem pair (ho : p.avoids '{' = true) (hc : p.avoids '}' = true) :
    (all [char '{', p, char '}']).TakesShallow := by
  have hinside : p.TakesOnly fun w => '{' ∉ w ∧ '}' ∉ w :=
    .of_avoids fun _ hw => ⟨hw '{' ho, hw '}' hc⟩
  refine hinside.enclosed.mono ?_
  rintro _ ⟨w, ⟨ho, hc⟩, rfl⟩
  exact shallow_pair ho hc

end TakesShallow

end Callees.Pattern

namespace Callees.Header

open Pattern Block

theorem params_shallow : params.TakesShallow :=
  .next (.plain rfl rfl)
    (.next (.many (.either (.plain rfl rfl) (.either (.plain rfl rfl) (.pair rfl rfl))))
      (.plain rfl rfl))

theorem generics_shallow : generics.TakesShallow := .plain rfl rfl

theorem returnType_shallow : returnType.TakesShallow := .plain rfl rfl

theorem blanks_shallow : blanks.TakesShallow := .plain rfl rfl

theorem functionExpression_shallow : functionExpression.TakesShallow :=
  .next (.plain rfl rfl) (.next (.plain rfl rfl) (.next blanks_shallow (.next generics_shallow
    (.next blanks_shallow (.next params_shallow returnType_shallow)))))

theorem arrow_shallow : arrow.TakesShallow :=
  .next (.either (.next generics_shallow (.next blanks_shallow (.next params_shallow
    returnType_shallow))) (.plain rfl rfl)) (.plain rfl rfl)

theorem functionValue_shallow : functionValue.TakesShallow :=
  .next (.plain rfl rfl) (.either functionExpression_shallow arrow_shallow)

theorem shape_shallow (shape : Shape) : shape.pattern.TakesShallow := by
  have hend : (all [blanks, atEnd]).TakesShallow := .plain rfl rfl
  have hparams : (all [generics, blanks, params, returnType, blanks, atEnd]).TakesShallow :=
    .next generics_shallow (.next blanks_shallow (.next params_shallow (.next returnType_shallow
      hend)))
  cases shape with
  | assigned =>
    exact .next (.plain rfl rfl) (.next blanks_shallow (.next (.plain rfl rfl) (.next (.plain rfl rfl)
      (.next blanks_shallow (.next functionValue_shallow hend)))))
  | keyed =>
    exact .next (.plain rfl rfl) (.next blanks_shallow (.next (.plain rfl rfl)
      (.next blanks_shallow (.next functionValue_shallow hend))))
  | declared =>
    exact .next (.plain rfl rfl) (.next (.plain rfl rfl) (.next blanks_shallow hparams))
  | method => exact .next (.plain rfl rfl) (.next blanks_shallow hparams)

/-- From where it starts, a header takes the rest of the preamble. -/
theorem shape_ends (shape : Shape) : shape.pattern.endsText = true := by
  cases shape <;> rfl

theorem find?_reads {preamble : List Char} {found : Found} (h : find? preamble = some found) :
    found.start ≤ preamble.length ∧ ∃ shape s t, (Shape.pattern shape).Reads s t ∧
      s.rest = preamble.drop found.start := by
  obtain ⟨shape, -, hshape⟩ := List.exists_of_findSome?_eq_some h
  obtain ⟨hmap, -⟩ := Option.filter_eq_some_iff.mp hshape
  obtain ⟨m, hm, rfl⟩ := Option.map_eq_some_iff.mp hmap
  obtain ⟨hle, s, t, hr, hs⟩ := search_reads hm
  exact ⟨hle, shape, s, t, hr, hs⟩

theorem find?_shallow {preamble : List Char} {found : Found} (h : find? preamble = some found) :
    Shallow (preamble.drop found.start) := by
  obtain ⟨-, shape, s, t, hr, hs⟩ := find?_reads h
  obtain ⟨w, hw, hshallow⟩ := shape_shallow shape s t hr
  rw [hr.ends (shape_ends shape), List.append_nil] at hw
  rw [← hs, hw]
  exact hshallow

theorem find?_nil : find? [] = none := by decide

end Callees.Header

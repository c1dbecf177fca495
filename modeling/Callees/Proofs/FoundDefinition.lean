import Mathlib.Data.List.Basic
import Callees.Proofs.Offsets
import Callees.Proofs.Tiers

namespace Callees

namespace Block

theorem afterLine_none {d : Depth} {line : List Char} (h : d.afterLine line = none) : line ≠ [] := by
  rintro rfl
  cases h

/-- The line that closes a block is one of those given, and it is the last one collected. -/
theorem bodyFrom_closes {d : Depth} {i : Nat} {ls : List (List Char)} {b : Body}
    (h : bodyFrom d i ls = some b) :
    i ≤ b.endLine ∧ b.endLine < i + ls.length ∧ ∃ line ∈ b.lines, line ≠ [] := by
  induction ls generalizing d i b with
  | nil => cases h
  | cons line rest ih =>
    rw [bodyFrom] at h
    split at h
    · next hnone =>
      cases h
      refine ⟨Nat.le_refl i, ?_, line, List.mem_singleton_self line, afterLine_none hnone⟩
      simp only [List.length_cons]
      omega
    · obtain ⟨b, hb, rfl⟩ := Option.map_eq_some_iff.mp h
      obtain ⟨hle, hlt, l, hl, hne⟩ := ih hb
      refine ⟨Nat.le_of_succ_le hle, ?_, l, List.mem_cons_of_mem line hl, hne⟩
      simp only [List.length_cons]
      omega

theorem body?_closes {ls : List (List Char)} {start : Nat} {b : Body}
    (h : body? ls start = some b) :
    start ≤ b.endLine ∧ b.endLine < ls.length ∧ ∃ line ∈ b.lines, line ≠ [] := by
  rw [body?, if_neg (by omega), Int.toNat_natCast] at h
  obtain ⟨hle, hlt, hline⟩ := bodyFrom_closes h
  rw [List.length_drop] at hlt
  exact ⟨hle, by omega, hline⟩

theorem intercalate_ne_nil {sep : List Char} {ls : List (List Char)} (h : ∃ line ∈ ls, line ≠ []) :
    List.intercalate sep ls ≠ [] := by
  obtain ⟨line, hmem, hne⟩ := h
  induction ls with
  | nil => cases hmem
  | cons l ls ih =>
    cases ls with
    | nil =>
      cases List.mem_singleton.mp hmem
      rwa [List.intercalate_singleton]
    | cons l' ls =>
      rw [List.intercalate_cons_cons]
      rcases List.mem_cons.mp hmem with rfl | hmem
      · simp [hne]
      · simp [ih hmem]

theorem Body.content_ne_empty {b : Body} (h : ∃ line ∈ b.lines, line ≠ []) : b.content ≠ "" := by
  intro hempty
  apply intercalate_ne_nil h
  rw [← String.toList_ofList (l := List.intercalate ['\n'] b.lines)]
  exact congrArg String.toList hempty

end Block

namespace Definition

/-- What every definition of a name has, wherever it was found. -/
structure Holds (name : String) (x : Definition) : Prop where
  name_eq : x.name = name
  content : x.content ≠ ""

theorem ofSymbol_holds {name : String} {symbol : SymbolInfo} {home : Document} {x : Definition}
    (h : ofSymbol name symbol home = some x) : Holds name x := by
  unfold ofSymbol at h
  split at h
  split at h
  · cases h
  · next hne =>
    cases h
    exact ⟨rfl, hne⟩

variable (name : String) (d : Document)

/-- A block ends on a line of the document, after the place where the search for it began. -/
theorem positionAt_le_stop {start : Nat} {body : Block.Body}
    (hb : Block.body? d.lineTexts (d.positionAt start).line = some body) :
    d.positionAt start ≤ ⟨body.endLine, ((d.lineTexts[body.endLine]?).map List.length).getD 0⟩ := by
  obtain ⟨hle, -, -⟩ := Block.body?_closes hb
  rw [Position.le_iff]
  -- a block that closes on its first line ends at the end of that line
  refine (Nat.lt_or_eq_of_le hle).imp_right fun heq => ⟨heq, ?_⟩
  obtain ⟨l, hl, hchar⟩ := d.positionAt_stands start
  rw [heq] at hl
  simpa [Document.lineTexts, hl] using hchar

theorem ofOffset_ok (start : Nat) :
    ∃ found, ofOffset name d start = .ok found ∧ ∀ x ∈ found, Holds name x := by
  unfold ofOffset
  dsimp only
  split
  · exact ⟨none, rfl, by simp⟩
  · next body hb =>
    rw [Range.between_ok (positionAt_le_stop d hb)]
    refine ⟨_, rfl, fun x hx => ?_⟩
    cases hx
    exact ⟨rfl, Block.Body.content_ne_empty (Block.body?_closes hb).2.2⟩

theorem firstOffset_ok (starts : List Nat) :
    ∃ found, firstOffset name d starts = .ok found ∧ ∀ x ∈ found, Holds name x := by
  induction starts with
  | nil => exact ⟨none, rfl, by simp⟩
  | cons start starts ih =>
    obtain ⟨_ | x, hfound, hx⟩ := ofOffset_ok name d start
    · rw [firstOffset, hfound]
      exact ih
    · rw [firstOffset, hfound]
      exact ⟨some x, rfl, hx⟩

theorem inText_ok : ∃ found, inText name d = .ok found ∧ ∀ x ∈ found, Holds name x :=
  firstOffset_ok name d (localOffsets name d)

end Definition

namespace Resolver

variable {σ : Type}

/-- What asking the index for a name comes to in a session: a symbol and the document that it is in, or
nothing, in one of four ways. -/
inductive Asked (r : Resolver σ) (name : String) (s : Session σ) :
    Option (SymbolInfo × Document) → Prop
  | noIndex (absent : r.symbols = none) : Asked r name s none
  | queryFailed {symbols : String → Lookup σ (List SymbolInfo)} {f : Failure}
      (index : r.symbols = some symbols) (failed : ((symbols name).run s).1 = .error f) :
      Asked r name s none
  | noneCallable {symbols : String → Lookup σ (List SymbolInfo)} {infos : List SymbolInfo}
      (index : r.symbols = some symbols) (answered : ((symbols name).run s).1 = .ok infos)
      (other : ∀ info ∈ infos, info.kind.isCallable = false) : Asked r name s none
  | homeFailed {symbols : String → Lookup σ (List SymbolInfo)} {infos : List SymbolInfo}
      {info : SymbolInfo} {s' : Session σ} {f : Failure} (index : r.symbols = some symbols)
      (answered : (symbols name).run s = (.ok infos, s'))
      (first : (Definition.candidates name infos).head? = some info)
      (failed : ((r.openDocument info.uri).run s').1 = .error f) : Asked r name s none
  | located {symbols : String → Lookup σ (List SymbolInfo)} {infos : List SymbolInfo}
      {info : SymbolInfo} {s' : Session σ} {document : Document} (index : r.symbols = some symbols)
      (answered : (symbols name).run s = (.ok infos, s'))
      (first : (Definition.candidates name infos).head? = some info)
      (opened : ((r.openDocument info.uri).run s').1 = .ok document) :
      Asked r name s (some (info, document))

end Resolver

theorem Definition.mem_candidates {name : String} {infos : List SymbolInfo} {info : SymbolInfo} :
    info ∈ candidates name infos ↔ info ∈ infos ∧ info.kind.isCallable = true := by
  by_cases hname : info.name = name <;> simp [candidates, hname]

theorem Definition.candidates_eq_nil {name : String} {infos : List SymbolInfo} :
    candidates name infos = [] ↔ ∀ info ∈ infos, info.kind.isCallable = false := by
  simp [List.eq_nil_iff_forall_not_mem, mem_candidates]

namespace Resolver

variable {σ : Type} (r : Resolver σ) (name : String) (s : Session σ)

theorem asked_total : ∃ found, r.Asked name s found := by
  cases hindex : r.symbols with
  | none => exact ⟨none, .noIndex hindex⟩
  | some symbols =>
    rcases hq : (symbols name).run s with ⟨f | infos, s'⟩
    · exact ⟨none, .queryFailed hindex (congrArg Prod.fst hq)⟩
    · cases hfirst : (Definition.candidates name infos).head? with
      | none =>
        have hnil := List.head?_eq_none_iff.mp hfirst
        exact ⟨none, .noneCallable hindex (congrArg Prod.fst hq)
          (Definition.candidates_eq_nil.mp hnil)⟩
      | some info =>
        cases hhome : ((r.openDocument info.uri).run s').1 with
        | error f => exact ⟨none, .homeFailed hindex hq hfirst hhome⟩
        | ok document => exact ⟨some (info, document), .located hindex hq hfirst hhome⟩

variable {r name s}

/-- Once a query is answered, the first callable symbol and its home decide. -/
theorem indexed?_answered {symbols : String → Lookup σ (List SymbolInfo)} {infos : List SymbolInfo}
    {s' : Session σ} (index : r.symbols = some symbols)
    (answered : (symbols name).run s = (.ok infos, s')) :
    r.indexed? name s = (Definition.candidates name infos).head?.bind fun info =>
      ((r.openDocument info.uri).value? s').bind (Definition.ofSymbol name info) := by
  rw [indexed?, index, Option.bind_some, Lookup.value?, inIndex, Lookup.run_bind_ok answered]
  cases Definition.candidates name infos with
  | nil => rfl
  | cons info rest =>
    simp only [List.head?_cons, Option.bind_some, Lookup.value?, Lookup.run_bind]
    rcases (r.openDocument info.uri).run s' with ⟨f | home, s''⟩ <;> rfl

theorem Asked.indexed? {found : Option (SymbolInfo × Document)} (h : r.Asked name s found) :
    r.indexed? name s = found.bind fun q => Definition.ofSymbol name q.1 q.2 := by
  cases h with
  | noIndex absent =>
    rw [Resolver.indexed?, absent]
    rfl
  | queryFailed index failed =>
    rw [Resolver.indexed?, index, Option.bind_some, Lookup.value?, inIndex,
      Lookup.run_bind_error failed]
    rfl
  | noneCallable index answered other =>
    rw [indexed?_answered index (Prod.ext answered rfl), Definition.candidates_eq_nil.mpr other]
    rfl
  | homeFailed index answered first failed =>
    rw [indexed?_answered index answered, first, Option.bind_some, Lookup.value?, failed]
    rfl
  | located index answered first opened =>
    rw [indexed?_answered index answered, first, Option.bind_some, Lookup.value?, opened]
    rfl

theorem indexed?_holds {x : Definition} (h : r.indexed? name s = some x) : x.Holds name := by
  obtain ⟨found, hfound⟩ := r.asked_total name s
  rw [hfound.indexed?] at h
  obtain ⟨⟨info, home⟩, -, h⟩ := Option.bind_eq_some_iff.mp h
  exact Definition.ofSymbol_holds h

/-- Looking a name up never fails. -/
theorem resolve_ok (r : Resolver σ) (name : String) (d : Document) (s : Session σ) :
    ∃ found, ((r.resolve name d).run s).1 = .ok found ∧ ∀ x ∈ found, x.Holds name := by
  by_cases hname : name = ""
  · refine ⟨none, ?_, by simp⟩
    rw [resolve, if_pos hname]
    rfl
  · rw [r.resolve_outcome hname]
    cases hindexed : r.indexed? name s with
    | none => exact Definition.inText_ok name d
    | some x =>
      refine ⟨some x, rfl, fun x' hx => ?_⟩
      cases hx
      exact indexed?_holds hindexed

end Resolver

end Callees

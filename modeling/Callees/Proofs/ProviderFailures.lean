import Mathlib.Data.List.Basic
import Callees.Proofs.LocatedScope
import Callees.Proofs.ReportForm

namespace Callees

/-- The answer is always that of `m₀`, unless it is lost. -/
def Lookup.Lapses {σ τ α : Type} (m : Lookup σ α) (m₀ : Lookup τ α) : Prop :=
  ∀ s t, (m.run s).1 = (m₀.run t).1 ∨ ∃ f, (m.run s).1 = .error f

theorem Lookup.Lapses.answer {σ τ α : Type} {m : Lookup σ α} {m₀ : Lookup τ α} (h : m.Lapses m₀)
    {s : Session σ} {a : α} (ha : (m.run s).1 = .ok a) (t : Session τ) : (m₀.run t).1 = .ok a := by
  rcases h s t with heq | ⟨f, hf⟩
  · rw [← heq, ha]
  · cases ha.symm.trans hf

namespace Resolver

variable {σ τ : Type}

/-- The same collaborators, but for the answers that are lost. -/
structure Lapses (r : Resolver σ) (r₀ : Resolver τ) : Prop where
  index : ∀ symbols ∈ r.symbols, ∃ symbols₀ ∈ r₀.symbols,
    ∀ name, (symbols name).Lapses (symbols₀ name)
  homes : ∀ uri, (r.openDocument uri).Lapses (r₀.openDocument uri)

variable {r : Resolver σ} {r₀ : Resolver τ} {name : String} {s : Session σ}

/-- The definition of a name, by what asking the index comes to. -/
theorem resolve_asked (hname : name ≠ "") (d : Document) {found : Option (SymbolInfo × Document)}
    (h : r.Asked name s found) : ((r.resolve name d).run s).1 =
      (found.bind fun q => Definition.ofSymbol name q.1 q.2).elim (Definition.inText name d)
        fun x => .ok (some x) := by
  rw [r.resolve_outcome hname, h.indexed?]

/-- A symbol whose home could be opened is found there whenever nothing fails. -/
theorem Asked.unlost {q : SymbolInfo × Document} (h : r.Asked name s (some q)) (hl : r.Lapses r₀)
    (t : Session τ) : r₀.Asked name t (some q) := by
  cases h with
  | located index answered first opened =>
    obtain ⟨symbols₀, hindex, hsymbols⟩ := hl.index _ index
    have hanswered := (hsymbols name).answer (congrArg Prod.fst answered) t
    exact .located hindex (Prod.ext hanswered rfl) first ((hl.homes _).answer opened _)

end Resolver

namespace Locator

variable {σ : Type} {l : Locator σ} {d : Document} {p : Position} {s : Session σ}

theorem locate_ok (l : Locator σ) (d : Document) (p : Position) (s : Session σ) :
    ∃ found, ((l.locate d p).run s).1 = .ok found := by
  rw [l.locate_outcome]
  cases l.shown? d p s with
  | none => exact Scope.ofBraces_ok l.window d p
  | some scope => exact ⟨some scope, rfl⟩

/-- Nothing is shown where the outline fails, and where no node around the position is a function. -/
theorem shown?_eq_none (h : ∀ outline ∈ l.outline, (∃ f, ((outline d).run s).1 = .error f) ∨
    ∃ symbols, ((outline d).run s).1 = .ok symbols ∧
      ∀ o, Outline.Shows p symbols o → o.isFunctionLike = false) : l.shown? d p s = none := by
  rw [shown?, Option.bind_eq_none_iff]
  intro outline ho
  rw [Lookup.value?]
  rcases h outline ho with ⟨f, hf⟩ | ⟨symbols, hs, hnone⟩
  · rw [hf]
    rfl
  · rw [hs]
    exact Option.map_eq_none_iff.mpr (Outline.tightest?_eq_none.mpr hnone)

theorem shown?_eq_some {outline : Document → Lookup σ (List Outline)} {symbols : List Outline}
    {scope : Scope} (ho : l.outline = some outline) (hs : ((outline d).run s).1 = .ok symbols)
    (h : Scope.ofOutline symbols p = some scope) : l.shown? d p s = some scope := by
  rw [shown?, ho, Option.bind_some, Lookup.value?, hs]
  exact h

end Locator

namespace Pipeline

variable {σ τ : Type} {p : Pipeline σ} {r : Resolver σ} {d : Document} {at_ : Position}

/-- With workers at hand, a run ends as soon as the scope is known. -/
theorem run_ok (hw : 1 ≤ p.maxWorkers) {s : Session σ} {found : Option Scope}
    (hl : ((p.locate d at_).run s).1 = .ok found) : ((p.run d at_).run s).1 = .ok
      ⟨d.uri, at_, found, found.elim [] (p.callSites d),
        (p.lookups d ((found.elim [] (p.callSites d)).map CallSite.name)
          ((p.locate d at_).run s).2).filterMap (p.answer d)⟩ := by
  have hran := p.run_ran d at_ s
  generalize ((p.run d at_).run s).1 = outcome at hran ⊢
  cases hran with
  | lost failed => cases failed.symm.trans hl
  | outside located =>
    cases located.symm.trans hl
    rfl
  | idle located workers => omega
  | inside located =>
    rw [located] at hl ⊢
    cases hl
    rfl

/-- The same pipeline, built with no outlines and no index. -/
def withoutProviders (p : Pipeline σ) (r : Resolver σ) : Pipeline σ :=
  { p with
    locator := { p.locator with outline := none }
    resolve := Resolver.resolve { r with symbols := none } }

/-- Neither the outline nor the index ever answers. -/
structure Mute (p : Pipeline σ) (r : Resolver σ) : Prop where
  outline : ∀ outline ∈ p.locator.outline, ∀ d s, ∃ f, ((outline d).run s).1 = .error f
  index : ∀ symbols ∈ r.symbols, ∀ name s, ∃ f, ((symbols name).run s).1 = .error f

/-- What failures may do to the report of a run, and what they may not. -/
structure Contained (p : Pipeline σ) (r : Resolver σ) (d : Document) (at_ : Position)
    (s : Session σ) (report : Report) : Prop where
  braces : (∀ outline ∈ p.locator.outline, (∃ f, ((outline d).run s).1 = .error f) ∨
      ∃ symbols, ((outline d).run s).1 = .ok symbols ∧
        ∀ o, Outline.Shows at_ symbols o → o.isFunctionLike = false) →
    Scope.ofBraces p.locator.window d at_ = .ok report.scope
  outline : ∀ outline ∈ p.locator.outline, ∀ symbols scope,
    ((outline d).run s).1 = .ok symbols → Scope.ofOutline symbols at_ = some scope →
      report.scope = some scope
  calls : report.callSites = report.scope.elim [] (p.callSites d)
  definitions : report.definitions = (p.lookups d (report.callSites.map CallSite.name)
    ((p.locate d at_).run s).2).filterMap (p.answer d)
  each : ∀ q ∈ p.lookups d (report.callSites.map CallSite.name) ((p.locate d at_).run s).2,
    ∃ found, r.Asked q.1 q.2 found ∧
      (found = none → Definition.inText q.1 d = .ok (p.answer d q)) ∧
      (found ≠ none → ∀ {τ : Type} (r₀ : Resolver τ), r.Lapses r₀ →
        ∀ t, ((r₀.resolve q.1 d).run t).1 = .ok (p.answer d q))
  identifiers : ∀ c ∈ report.callSites, Text.isIdentifier c.name.toList = true
  contents : ∀ x ∈ report.definitions, x.content ≠ ""
  alone : p.Mute r → ∀ t, (((p.withoutProviders r).run d at_).run t).1 = .ok report

theorem callSites_identifier {scope : Scope} {c : CallSite} (h : c ∈ p.callSites d scope) :
    Text.isIdentifier c.name.toList = true :=
  (CallSite.listed d scope.range (scope.name :: p.skipped)).identifier c h

theorem name_ne_empty {name : String} (h : Text.isIdentifier name.toList = true) : name ≠ "" := by
  rintro rfl
  cases h

theorem answers_hold (hp : p.resolve = r.resolve) {queries : List (String × Session σ)}
    {x : Definition} (h : x ∈ queries.filterMap (p.answer d)) : x.Holds x.name := by
  obtain ⟨q, -, hq⟩ := List.mem_filterMap.mp h
  obtain ⟨found, hfound, hholds⟩ := r.resolve_ok q.1 d q.2
  cases hfound.symm.trans ((answer_eq_some hp).mp hq)
  have hx := hholds x rfl
  exact hx.name_eq ▸ hx

theorem resolve_answer (hp : p.resolve = r.resolve) (q : String × Session σ) :
    ((r.resolve q.1 d).run q.2).1 = .ok (p.answer d q) := by
  obtain ⟨found, hfound, -⟩ := r.resolve_ok q.1 d q.2
  rw [answer, Lookup.value?, hp, hfound]
  rfl

/-- Whatever the collaborators do, a name that is looked up gets what its own queries come to. -/
theorem answer_contained (hp : p.resolve = r.resolve) {q : String × Session σ} (hname : q.1 ≠ "") :
    ∃ found, r.Asked q.1 q.2 found ∧
      (found = none → Definition.inText q.1 d = .ok (p.answer d q)) ∧
      (found ≠ none → ∀ {τ : Type} (r₀ : Resolver τ), r.Lapses r₀ →
        ∀ t, ((r₀.resolve q.1 d).run t).1 = .ok (p.answer d q)) := by
  obtain ⟨found, hasked⟩ := r.asked_total q.1 q.2
  have hanswer := resolve_answer (d := d) hp q
  rw [Resolver.resolve_asked hname d hasked] at hanswer
  refine ⟨found, hasked, fun hnone => ?_, fun hsome τ r₀ hl t => ?_⟩
  · rw [hnone] at hanswer
    exact hanswer
  · obtain ⟨home, rfl⟩ := Option.ne_none_iff_exists'.mp hsome
    rw [Resolver.resolve_asked hname d (hasked.unlost hl t)]
    exact hanswer

/-- Where every name gets the same from two resolvers, so does a list of names. -/
theorem lookups_congr {p₀ : Pipeline τ} {names : List String}
    (h : ∀ name ∈ names, ∀ s t, p.answer d (name, s) = p₀.answer d (name, t)) (s : Session σ)
    (t : Session τ) : (p.lookups d names s).filterMap (p.answer d) =
      (p₀.lookups d names t).filterMap (p₀.answer d) := by
  induction names generalizing s t with
  | nil => rfl
  | cons name names ih =>
    have hrest := ih (fun name' hmem => h name' (List.mem_cons_of_mem name hmem))
      ((p.resolveOne d name).run s).2 ((p₀.resolveOne d name).run t).2
    simp only [lookups, List.filterMap_cons, h name List.mem_cons_self s t, hrest]

namespace Mute

theorem locate (hm : p.Mute r) (s : Session σ) :
    ((p.locate d at_).run s).1 = Scope.ofBraces p.locator.window d at_ := by
  rw [Pipeline.locate, Locator.locate_outcome,
    Locator.shown?_eq_none fun outline ho => .inl (hm.outline outline ho d s)]
  rfl

theorem asked (hm : p.Mute r) {name : String} {s : Session σ}
    {found : Option (SymbolInfo × Document)} (h : r.Asked name s found) : found = none := by
  cases h with
  | located index answered first opened =>
    obtain ⟨f, hf⟩ := hm.index _ index name s
    cases (congrArg Prod.fst answered).symm.trans hf
  | _ => rfl

theorem answer (hm : p.Mute r) (hp : p.resolve = r.resolve) {q : String × Session σ}
    (hname : q.1 ≠ "") : Definition.inText q.1 d = .ok (p.answer d q) := by
  obtain ⟨found, hasked, hnone, -⟩ := answer_contained (d := d) hp hname
  exact hnone (hm.asked hasked)

theorem withoutProviders (p : Pipeline σ) (r : Resolver σ) :
    (p.withoutProviders r).Mute { r with symbols := none } := ⟨nofun, nofun⟩

theorem answer_eq (hm : p.Mute r) (hp : p.resolve = r.resolve) {name : String} (hname : name ≠ "")
    (s t : Session σ) :
    (p.withoutProviders r).answer d (name, s) = p.answer d (name, t) := by
  have hleft := (withoutProviders p r).answer (d := d) (q := (name, s)) rfl hname
  have hright := hm.answer (d := d) (q := (name, t)) hp hname
  exact Except.ok.inj (hleft.symm.trans hright)

end Mute

/-- For every document, cursor and session, and whichever answers are lost. -/
theorem failures_contained (hp : p.resolve = r.resolve) (hw : 1 ≤ p.maxWorkers) (d : Document)
    (at_ : Position) (s : Session σ) :
    ∃ report, ((p.run d at_).run s).1 = .ok report ∧ p.Contained r d at_ s report := by
  obtain ⟨found, hfound⟩ := p.locator.locate_ok d at_ s
  have hshown := (p.locator.locate_outcome d at_ s).symm.trans hfound
  have hidentifier : ∀ c ∈ found.elim [] (p.callSites d), Text.isIdentifier c.name.toList = true := by
    cases found with
    | none => simp
    | some scope => exact fun c hc => callSites_identifier hc
  refine ⟨_, p.run_ok hw hfound, ?_⟩
  exact {
    braces := fun h => by
      rw [Locator.shown?_eq_none h] at hshown
      exact hshown
    outline := fun outline ho symbols scope hs h => by
      rw [Locator.shown?_eq_some ho hs h] at hshown
      cases hshown
      rfl
    calls := rfl
    definitions := rfl
    each := fun q hq => by
      have hmem := List.mem_map_of_mem (f := Prod.fst) hq
      rw [lookups_names] at hmem
      obtain ⟨c, hc, hname⟩ := List.mem_map.mp hmem
      exact answer_contained hp (hname ▸ name_ne_empty (hidentifier c hc))
    identifiers := hidentifier
    contents := fun x hx => (answers_hold hp hx).content
    alone := fun hm t => by
      have hbraces := (Mute.locate hm s).symm.trans hfound
      -- a pipeline without providers is mute as well, and mute pipelines agree on every name
      have hmute := Mute.withoutProviders p r
      rw [(p.withoutProviders r).run_ok hw ((hmute.locate t).trans hbraces)]
      congr 2
      apply lookups_congr
      intro name hmem s t
      obtain ⟨c, hc, rfl⟩ := List.mem_map.mp hmem
      exact hm.answer_eq hp (name_ne_empty (hidentifier c hc)) s t }

def scattered : Document :=
  ⟨"file:///scattered.js", "// calls\nfunction f() \x7b\n  a(); b(); c();\n\x7d\n" ++
    "function a() \x7b 1; \x7d\nfunction b() \x7b 2; \x7d\nfunction c() \x7b 3; \x7d\n", none, 0⟩

def library : Document := ⟨"file:///library.js", "function c() \x7b 4; \x7d", none, 0⟩

/-- The host counts the queries. The first one fails, and of the homes only that of `c` can be opened. -/
def scatteredResolver : Resolver Nat :=
  ⟨fun uri => if uri = "c" then pure library else Lookup.fail .noHome,
    some fun name => Lookup.host fun n =>
      (if n = 0 then .error .noHome
        else .ok [⟨name, .function, name, .onLine ⟨0, 0⟩ 19, none⟩], n + 1)⟩

def scatteredPipeline : Pipeline Nat :=
  ⟨⟨some fun _ => Lookup.fail .noHome, 200⟩, scatteredResolver.resolve, 1, []⟩

def scatteredReport : Report :=
  ⟨scattered.uri, ⟨2, 4⟩, some ⟨⟨⟨1, 0⟩, ⟨3, 1⟩, by decide⟩, "f"⟩,
    [⟨"a", .onLine ⟨2, 2⟩ 1, 2, 2⟩, ⟨"b", .onLine ⟨2, 7⟩ 1, 2, 7⟩, ⟨"c", .onLine ⟨2, 12⟩ 1, 2, 12⟩],
    [⟨"a", scattered.uri, .onLine ⟨4, 0⟩ 19, "function a() \x7b 1; \x7d", 4, 4, .local_⟩,
      ⟨"b", scattered.uri, .onLine ⟨5, 0⟩ 19, "function b() \x7b 2; \x7d", 5, 5, .local_⟩,
      ⟨"c", library.uri, .onLine ⟨0, 0⟩ 19, "function c() \x7b 4; \x7d", 0, 0, .index⟩]⟩

/-- The query for `a` fails, and so does opening the home of `b`; `c` is found where its symbol is. -/
theorem failures_contained_scattered :
    ((scatteredPipeline.run scattered ⟨2, 4⟩).run ⟨0, []⟩).1 = .ok scatteredReport ∧
      Scope.ofBraces 200 scattered ⟨2, 4⟩ = .ok scatteredReport.scope ∧
      scatteredPipeline.Contained scatteredResolver scattered ⟨2, 4⟩ ⟨0, []⟩ scatteredReport := by
  have hr : ((scatteredPipeline.run scattered ⟨2, 4⟩).run ⟨0, []⟩).1 = .ok scatteredReport := by
    decide +kernel
  obtain ⟨report, hrun, hcontained⟩ := failures_contained (p := scatteredPipeline)
    (r := scatteredResolver) rfl (by decide) scattered ⟨2, 4⟩ ⟨0, []⟩
  cases hr.symm.trans hrun
  refine ⟨hr, hcontained.braces fun outline ho => .inl ⟨.noHome, ?_⟩, hcontained⟩
  cases ho
  rfl

end Pipeline

end Callees

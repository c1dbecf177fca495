import Mathlib.Data.List.Basic
import Callees.Proofs.CallSites
import Callees.Proofs.FoundDefinition
import Callees.Proofs.Runs

namespace Callees

theorem Report.message?_eq_none {report : Report} : report.message? = none ↔
    report.scope ≠ none ∧ report.callSites ≠ [] ∧ report.definitions ≠ [] := by
  unfold message?
  cases report.scope <;> cases report.callSites <;> cases report.definitions <;> simp

namespace Pipeline

variable {σ : Type} {p : Pipeline σ} {r : Resolver σ} {d : Document}

theorem answer_eq_some (hp : p.resolve = r.resolve) {q : String × Session σ} {x : Definition} :
    p.answer d q = some x ↔ ((r.resolve q.1 d).run q.2).1 = .ok (some x) := by
  rw [answer, Lookup.value?, hp]
  rcases ((r.resolve q.1 d).run q.2).1 with f | _ | x' <;> simp [Except.toOption]

theorem answer_name (hp : p.resolve = r.resolve) {q : String × Session σ} {x : Definition}
    (h : p.answer d q = some x) : x.name = q.1 := by
  obtain ⟨found, hfound, hholds⟩ := r.resolve_ok q.1 d q.2
  cases hfound.symm.trans ((answer_eq_some hp).mp h)
  exact (hholds x rfl).name_eq

/-- The definitions come in the order of the names, and some names have none. -/
theorem answers_sublist (hp : p.resolve = r.resolve) (queries : List (String × Session σ)) :
    ((queries.filterMap (p.answer d)).map Definition.name).Sublist (queries.map Prod.fst) := by
  induction queries with
  | nil => exact .slnil
  | cons q queries ih =>
    rw [List.map_cons]
    cases hq : p.answer d q with
    | none =>
      rw [List.filterMap_cons_none hq]
      exact ih.cons _
    | some x =>
      rw [List.filterMap_cons_some hq, List.map_cons, answer_name hp hq]
      exact ih.cons_cons _

theorem report_wellFormed (hp : p.resolve = r.resolve) {at_ : Position} {s : Session σ}
    {report : Report} (hr : ((p.run d at_).run s).1 = .ok report) :
    (report.scope = none → report.callSites = [] ∧ report.definitions = []) ∧
    (∀ scope ∈ report.scope,
      CallSite.Listed d scope.range (scope.name :: p.skipped) report.callSites) ∧
    (report.definitions.map Definition.name).Sublist (report.callSites.map CallSite.name) ∧
    (∀ x, x ∈ report.definitions ↔
      ∃ q ∈ p.lookups d (report.callSites.map CallSite.name) ((p.locate d at_).run s).2,
        ((r.resolve q.1 d).run q.2).1 = .ok (some x)) ∧
    (report.message? = none ↔ report.definitions ≠ []) := by
  have hran := p.run_ran d at_ s
  rw [hr] at hran
  cases hran with
  | outside located => simp [lookups, Report.message?_eq_none]
  | @inside scope s' located =>
    have hnames := answers_sublist (d := d) hp
      (p.lookups d ((p.callSites d scope).map CallSite.name) s')
    rw [lookups_names] at hnames
    refine ⟨fun h => absurd h (Option.some_ne_none scope), fun scope' hscope => ?_, hnames,
      fun x => ?_, ?_⟩
    · cases hscope
      exact CallSite.listed d scope.range (scope.name :: p.skipped)
    · simp only [List.mem_filterMap, answer_eq_some hp, located]
    · rw [Report.message?_eq_none]
      refine ⟨fun h => h.2.2, fun h => ⟨Option.some_ne_none scope, fun hcalls => h ?_, h⟩⟩
      simp only at hcalls
      rw [hcalls]
      rfl

/-- One line break of each kind; the second function is outside the first. -/
def overrun : Document :=
  ⟨"file:///overrun.js", "function f() \x7b\r\n  g(1); h (2);\r  g(3); if (x) f();\n\x7d\n" ++
    "function g(x) \x7b return x; \x7d\n", none, 0⟩

/-- A span that starts within a word and ends past the text. -/
def overrunScope : Scope := ⟨⟨⟨0, 3⟩, ⟨9, 4⟩, by decide⟩, "f"⟩

def overrunResolver : Resolver Unit :=
  ⟨fun _ => Lookup.fail .noHome, some fun _ => Lookup.fail .noHome⟩

def overrunPipeline : Pipeline Unit :=
  ⟨⟨some fun _ => pure [.node overrunScope.name .function overrunScope.range []], 200⟩,
    overrunResolver.resolve, 2, ["log"]⟩

def overrunReport : Report :=
  ⟨overrun.uri, ⟨2, 40⟩, some overrunScope,
    [⟨"g", .onLine ⟨1, 2⟩ 1, 1, 2⟩, ⟨"h", .onLine ⟨1, 8⟩ 1, 1, 8⟩],
    [⟨"g", overrun.uri, .onLine ⟨4, 0⟩ 27, "function g(x) \x7b return x; \x7d", 4, 4, .local_⟩]⟩

/-- The second call of `g`, the call of the scope itself and the keyword are not among the calls. -/
theorem report_wellFormed_overrun :
    ((overrunPipeline.run overrun ⟨2, 40⟩).run ⟨(), []⟩).1 = .ok overrunReport ∧
      CallSite.Listed overrun overrunScope.range ("f" :: overrunPipeline.skipped)
        overrunReport.callSites ∧
      (overrunReport.definitions.map Definition.name).Sublist ["g", "h"] ∧
      overrunReport.message? = none := by
  have hr : ((overrunPipeline.run overrun ⟨2, 40⟩).run ⟨(), []⟩).1 = .ok overrunReport := by
    decide +kernel
  obtain ⟨-, hcalls, hnames, -, hmessage⟩ := report_wellFormed (r := overrunResolver) rfl hr
  exact ⟨hr, hcalls overrunScope rfl, hnames, hmessage.mpr (by simp [overrunReport])⟩

end Pipeline

end Callees

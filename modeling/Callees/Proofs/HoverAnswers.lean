import Callees.Proofs.CallUnderCursor
import Callees.Proofs.ProviderFailures
import Callees.Proofs.SameScope

namespace Callees

open Text

namespace Pipeline

variable {σ : Type} {p : Pipeline σ} {r : Resolver σ} {d : Document} {at_ : Position} {s : Session σ}
  {report : Report}

theorem answer_steady (hp : p.resolve = r.resolve) (hr : r.Steady) (name : String) (s s' : Session σ) :
    p.answer d (name, s) = p.answer d (name, s') := by
  rw [answer, answer, Lookup.value?, Lookup.value?, hp, (hr.resolve name d).same s s']

theorem callSites_stand (h : ((p.run d at_).run s).1 = .ok report) {c : CallSite}
    (hc : c ∈ report.callSites) : ∃ scope ∈ report.scope, ∃ a, CallSite.Stands d scope.range a c := by
  have hran := p.run_ran d at_ s
  rw [h] at hran
  cases hran with
  | outside => cases hc
  | inside => exact ⟨_, rfl, (CallSite.stands_of_kept hc).2⟩

/-- Over steady collaborators, the definitions of a report are what its calls come to at any time. -/
theorem mem_definitions (hp : p.resolve = r.resolve) (hr : r.Steady)
    (h : ((p.run d at_).run s).1 = .ok report) (s' : Session σ) (x : Definition) :
    x ∈ report.definitions ↔ ∃ c ∈ report.callSites, p.answer d (c.name, s') = some x := by
  have hran := p.run_ran d at_ s
  rw [h] at hran
  cases hran with
  | outside => simp
  | @inside scope s'' located =>
    simp only [List.mem_filterMap]
    constructor
    · rintro ⟨q, hq, hanswer⟩
      have hname := List.mem_map_of_mem (f := Prod.fst) hq
      rw [lookups_names] at hname
      obtain ⟨c, hc, heq⟩ := List.mem_map.mp hname
      exact ⟨c, hc, (answer_steady hp hr c.name s' q.2).trans (heq ▸ hanswer)⟩
    · rintro ⟨c, hc, hanswer⟩
      have hname := List.mem_map_of_mem (f := CallSite.name) hc
      rw [← p.lookups_names d ((p.callSites d scope).map CallSite.name) s''] at hname
      obtain ⟨q, hq, heq⟩ := List.mem_map.mp hname
      exact ⟨q, hq, (answer_steady hp hr q.1 q.2 s').trans (heq ▸ hanswer)⟩

end Pipeline

namespace Hover

variable {σ : Type} {p : Pipeline σ} {r : Resolver σ} {d : Document} {at_ q : Position} {s : Session σ}
  {report : Report} {c : CallSite}

/-- A call of a report is shown with the definition that the report has of it, and with none if the report
has none. -/
theorem definition_as_reported (hp : p.resolve = r.resolve) (hr : r.Steady)
    (hrun : ((p.run d at_).run s).1 = .ok report)
    (hscope : ∀ scope ∈ report.scope, splitsWord d.chars (d.offsetAt scope.range.start) = false)
    (hc : c ∈ report.callSites) (htouches : Touches d q c) (s' : Session σ) :
    ∃ found, ((definition r.resolve d q).run s').1 = .ok found ∧
      ∀ x, found = some x ↔ x ∈ report.definitions ∧ x.name = c.name := by
  obtain ⟨scope, hlocated, a, hstands⟩ := Pipeline.callSites_stand hrun hc
  refine ⟨p.answer d (c.name, s'), ?_, fun x => ?_⟩
  · rw [definition, htouches.named hstands (hscope scope hlocated)]
    exact Pipeline.resolve_answer hp (c.name, s')
  · rw [Pipeline.mem_definitions hp hr hrun s']
    constructor
    · intro hx
      exact ⟨⟨c, hc, hx⟩, Pipeline.answer_name hp hx⟩
    · rintro ⟨⟨c', -, hx⟩, hname⟩
      rw [← hname, Pipeline.answer_name hp hx]
      exact hx

/-- The first call is of a function of the library, the second of one in the text, and the third of none. -/
def errand : Document :=
  ⟨"file:///errand.js", "function area(r) \x7b return r * r; \x7d\r\nfunction run(n) \x7b\r  send(\r\n" ++
    "  area(n), miss(n));\n\x7d\n", none, 0⟩

def post : Document := ⟨"file:///post.js", "function send(x) \x7b queue(x); \x7d", none, 0⟩

def errandResolver : Resolver Nat :=
  ⟨fun _ => pure post, some fun name =>
    if name = "send" then pure [⟨name, .function, post.uri, .onLine ⟨0, 0⟩ 30, none⟩]
    else Lookup.fail .noHome⟩

def errandPipeline : Pipeline Nat := ⟨⟨none, 200⟩, errandResolver.resolve, 1, []⟩

def errandReport : Report :=
  ⟨errand.uri, ⟨2, 4⟩, some ⟨⟨⟨1, 0⟩, ⟨4, 1⟩, by decide⟩, "run"⟩,
    [⟨"send", .onLine ⟨2, 2⟩ 4, 2, 2⟩, ⟨"area", .onLine ⟨3, 2⟩ 4, 3, 2⟩, ⟨"miss", .onLine ⟨3, 11⟩ 4, 3, 11⟩],
    [⟨"send", post.uri, .onLine ⟨0, 0⟩ 30, "function send(x) \x7b queue(x); \x7d", 0, 0, .index⟩,
      ⟨"area", errand.uri, .onLine ⟨0, 0⟩ 34, "function area(r) \x7b return r * r; \x7d", 0, 0, .local_⟩]⟩

theorem errandResolver_steady : errandResolver.Steady where
  index := by
    intro symbols hs name
    cases hs
    change Lookup.Steady (if _ then _ else _)
    split
    · exact Lookup.steady_pure _
    · exact Lookup.steady_fail _
  homes _ := Lookup.steady_pure post

/-- Each call is asked for at its end, long after the run. -/
theorem definition_as_reported_errand :
    ((errandPipeline.run errand ⟨2, 4⟩).run ⟨0, []⟩).1 = .ok errandReport ∧
      ∀ c ∈ errandReport.callSites, Touches errand c.range.stop c ∧
        ∃ found, ((definition errandResolver.resolve errand c.range.stop).run ⟨7, []⟩).1 = .ok found ∧
          ∀ x, found = some x ↔ x ∈ errandReport.definitions ∧ x.name = c.name := by
  have hrun : ((errandPipeline.run errand ⟨2, 4⟩).run ⟨0, []⟩).1 = .ok errandReport := by
    decide +kernel
  have hscope : ∀ scope ∈ errandReport.scope,
      splitsWord errand.chars (errand.offsetAt scope.range.start) = false := by
    decide +kernel
  have htouched : ∀ c ∈ errandReport.callSites, minWord ≤ c.name.length ∧
      errand.chars[errand.offsetAt c.range.stop]? = some '(' := by
    decide +kernel
  refine ⟨hrun, fun c hc => ?_⟩
  obtain ⟨hlong, hparen⟩ := htouched c hc
  have htouches : Touches errand c.range.stop c := ⟨hlong, hparen, c.range.ordered, Position.le_iff.mpr (by omega)⟩
  exact ⟨htouches, definition_as_reported rfl errandResolver_steady hrun hscope hc htouches ⟨7, []⟩⟩

end Hover

end Callees

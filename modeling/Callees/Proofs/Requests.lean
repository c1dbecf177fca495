import Mathlib.Data.List.Induction
import Callees.Proofs.FailedEvents
import Callees.Proofs.SameScope

namespace Callees

/-- What a host asks of a pipeline. -/
inductive Request (σ : Type)
  | update (d : Document) (at_ : Position) (receive : Report → Lookup σ Unit)
  | reset

namespace Request

variable {σ : Type}

/-- What comes of a request. A reset has no outcome. -/
abbrev Answer := Option (Except Failure Update.Outcome)

/-- An update with nothing in its gaps. -/
def handle (p : Pipeline σ) (receive : Report → Lookup σ Unit) (d : Document) (at_ : Position) :
    AtDesk σ (Except Failure Update.Outcome) :=
  (p.update receive (pure (.ok ())) (pure (.ok ())) d at_).andThen fun (_, _, outcome) =>
    pure (.ok outcome)

def serve (p : Pipeline σ) : Request σ → AtDesk σ Answer
  | update d at_ receive => do
    let outcome ← handle p receive d at_
    pure (some outcome)
  | reset => do
    Update.forget
    pure none

def serveAll (p : Pipeline σ) : List (Request σ) → AtDesk σ (List Answer)
  | [] => pure []
  | r :: rs => do
    let first ← serve p r
    let rest ← serveAll p rs
    pure (first :: rest)

def document? : Request σ → Option Document
  | update d _ _ => some d
  | reset => none

def documents (rs : List (Request σ)) : List Document := rs.filterMap document?

/-- Documents of one name and one version are the same. -/
def Versioned (rs : List (Request σ)) : Prop :=
  ∀ d ∈ documents rs, ∀ d' ∈ documents rs, d.uri = d'.uri → d.version = d'.version → d = d'

/-- The scope that an update is about, if there is one around its cursor. -/
def identity? (p : Pipeline σ) (s : Session σ) : Request σ → Option Scope.Identity
  | update d at_ _ => ((p.locate d at_).value? s).join.map (Scope.identity d)
  | reset => none

def Answer.ended (outcome : Update.Outcome) : Answer := some (.ok outcome)

def Answer.published? : Answer → Option Report
  | some (.ok (.published report)) => some report
  | _ => none

/-- The reports that were published, in this order. -/
def shown (answers : List Answer) : List Report := answers.filterMap Answer.published?

theorem documents_concat (rs : List (Request σ)) (d : Document) (at_ : Position)
    (receive : Report → Lookup σ Unit) :
    documents (rs ++ [update d at_ receive]) = documents rs ++ [d] := List.filterMap_append

theorem shown_unchanged (answers : List Answer) :
    shown (answers ++ [.ended .unchanged]) = shown answers :=
  List.filterMap_append.trans (List.append_nil _)

theorem shown_published (answers : List Answer) (report : Report) :
    shown (answers ++ [.ended (.published report)]) = shown answers ++ [report] :=
  List.filterMap_append

end Request

/-- A report says where it was asked for. -/
theorem Pipeline.run_position {σ : Type} {p : Pipeline σ} {d : Document} {at_ : Position}
    {s : Session σ} {report : Report} (hr : ((p.run d at_).run s).1 = .ok report) :
    report.position = at_ := by
  have hran := p.run_ran d at_ s
  rw [hr] at hran
  cases hran <;> rfl

namespace Request

variable {σ : Type} {p : Pipeline σ}

theorem serveAll_append (rs rs' : List (Request σ)) (desk : Desk σ) :
    serveAll p (rs ++ rs') desk =
      ((serveAll p rs desk).1 ++ (serveAll p rs' (serveAll p rs desk).2).1,
        (serveAll p rs' (serveAll p rs desk).2).2) := by
  induction rs generalizing desk with
  | nil => rfl
  | cons r rs ih =>
    simp only [List.cons_append, serveAll, AtDesk.bind_at, AtDesk.pure_at, ih]

theorem serveAll_length (rs : List (Request σ)) (desk : Desk σ) :
    (serveAll p rs desk).1.length = rs.length := by
  induction rs generalizing desk with
  | nil => rfl
  | cons r rs ih => exact congrArg (· + 1) (ih _)

/-- The desk at which an event looks for its scope. -/
def entered (desk : Desk σ) : Desk σ :=
  ⟨{ desk.tickets with next := desk.tickets.next + 1 }, desk.session⟩

theorem enter_at (desk : Desk σ) : Update.enter desk = (desk.tickets.next, entered desk) := rfl

/-- Everything that an update with nothing in its gaps can come to. -/
inductive Handled (p : Pipeline σ) (d : Document) (at_ : Position) (desk : Desk σ) :
    Except Failure Update.Outcome → Tickets → Prop
  | skipped {scope : Option Scope} (located : ((p.locate d at_).run desk.session).1 = .ok scope)
      (known : desk.tickets.unchanged (scope.map (Scope.identity d)) = true) :
      Handled p d at_ desk (.ok .unchanged) { desk.tickets with next := desk.tickets.next + 1 }
  | failed {f : Failure} {t : Tickets} : Handled p d at_ desk (.error f) t
  | published {scope : Option Scope} {report : Report} {s : Session σ}
      (located : ((p.locate d at_).run desk.session).1 = .ok scope)
      (changed : desk.tickets.unchanged (scope.map (Scope.identity d)) = false)
      (ran : ((p.run d at_).run s).1 = .ok report) :
      Handled p d at_ desk (.ok (.published report))
        ⟨desk.tickets.next + 1, some desk.tickets.next, some desk.tickets.next,
          scope.map (Scope.identity d)⟩

theorem check_known (p : Pipeline σ) {d : Document} {at_ : Position} (n : Nat) (desk : Desk σ)
    {scope : Option Scope} (hl : ((p.locate d at_).run desk.session).1 = .ok scope)
    (hk : desk.tickets.unchanged (scope.map (Scope.identity d)) = true) :
    (p.check d at_ n desk).1 = .ok (scope, false) ∧
      (p.check d at_ n desk).2.tickets = desk.tickets := by
  simp only [Pipeline.check, Update.accept, AtDesk.bind_at, AtDesk.tickets_at, AtDesk.lookup_at,
    AtDesk.note_at, AtDesk.pure_at, hl, hk, ↓reduceIte, and_self]

theorem check_changed (p : Pipeline σ) {d : Document} {at_ : Position} (n : Nat) (desk : Desk σ)
    {scope : Option Scope} (hl : ((p.locate d at_).run desk.session).1 = .ok scope)
    (hk : desk.tickets.unchanged (scope.map (Scope.identity d)) = false) :
    (p.check d at_ n desk).1 = .ok (scope, true) ∧
      (p.check d at_ n desk).2.tickets =
        desk.tickets.record n (scope.map (Scope.identity d)) := by
  simp only [Pipeline.check, Update.accept, AtDesk.bind_at, AtDesk.tickets_at, AtDesk.lookup_at,
    AtDesk.pure_at, hl, hk, Bool.false_eq_true, ↓reduceIte, and_self]

theorem deliver_timely (receive : Report → Lookup σ Unit) (d : Document) {n : Nat}
    (report : Report) {desk : Desk σ} (ht : desk.tickets.stale n = false) :
    (Update.deliver receive d n report desk).2.tickets = desk.tickets.publish n ∧
      ((Update.deliver receive d n report desk).1 = .ok (.published report) ∨
        ∃ f, (Update.deliver receive d n report desk).1 = .error f) := by
  cases hr : ((receive report).run desk.session).1 <;>
    simp [Update.deliver, Update.settle, ht, hr]

/-- A scope that is known already ends the update. -/
theorem handle_known (p : Pipeline σ) (receive : Report → Lookup σ Unit) {d : Document}
    {at_ : Position} {desk checked : Desk σ} {scope : Option Scope}
    (hc : p.check d at_ desk.tickets.next (entered desk) = (.ok (scope, false), checked)) :
    handle p receive d at_ desk = (.ok .unchanged, checked) := by
  have hupdate : p.update receive (pure (.ok ())) (pure (.ok ())) d at_ desk =
      (.ok ((), none, .unchanged), checked) := AtDesk.andThen_ok hc
  exact AtDesk.andThen_ok hupdate

theorem handle_changed (p : Pipeline σ) (receive : Report → Lookup σ Unit) {d : Document}
    {at_ : Position} {desk checked : Desk σ} {scope : Option Scope}
    (hc : p.check d at_ desk.tickets.next (entered desk) = (.ok (scope, true), checked)) :
    handle p receive d at_ desk = p.conclude receive d at_ desk.tickets.next checked := by
  have hupdate : p.update receive (pure (.ok ())) (pure (.ok ())) d at_ desk =
      (p.conclude receive d at_ desk.tickets.next).andThen
        (fun outcome => pure (.ok ((), some (), outcome))) checked := AtDesk.andThen_ok hc
  rcases ho : p.conclude receive d at_ desk.tickets.next checked with ⟨f | outcome, desk'⟩
  · rw [AtDesk.andThen_error ho] at hupdate
    exact AtDesk.andThen_error hupdate
  · rw [AtDesk.andThen_ok ho] at hupdate
    exact AtDesk.andThen_ok hupdate

theorem handle_of_known (p : Pipeline σ) {d : Document} {at_ : Position}
    (receive : Report → Lookup σ Unit) {desk : Desk σ} {scope : Option Scope}
    (hl : ((p.locate d at_).run desk.session).1 = .ok scope)
    (hk : desk.tickets.unchanged (scope.map (Scope.identity d)) = true) :
    Handled p d at_ desk (handle p receive d at_ desk).1
      (handle p receive d at_ desk).2.tickets := by
  obtain ⟨hgo, ht⟩ := check_known p desk.tickets.next (entered desk) hl hk
  rcases hc : p.check d at_ desk.tickets.next (entered desk) with ⟨_, checked⟩
  rw [hc] at hgo ht
  subst hgo
  rw [handle_known p receive hc]
  change Handled p d at_ desk (.ok .unchanged) checked.tickets
  rw [show checked.tickets = (entered desk).tickets from ht]
  exact .skipped hl hk

/-- A ticket that is newer than all others is neither kept from recording nor dropped. -/
theorem handle_of_changed (p : Pipeline σ) {d : Document} {at_ : Position}
    (receive : Report → Lookup σ Unit) {desk : Desk σ} {scope : Option Scope}
    (hr : Tickets.rank desk.tickets.recorded < desk.tickets.next)
    (hp : Tickets.rank desk.tickets.published < desk.tickets.next)
    (hl : ((p.locate d at_).run desk.session).1 = .ok scope)
    (hk : desk.tickets.unchanged (scope.map (Scope.identity d)) = false) :
    Handled p d at_ desk (handle p receive d at_ desk).1
      (handle p receive d at_ desk).2.tickets := by
  obtain ⟨hgo, ht⟩ := check_changed p desk.tickets.next (entered desk) hl hk
  replace ht := ht.trans (Tickets.record_newer (t := (entered desk).tickets) hr)
  rcases hc : p.check d at_ desk.tickets.next (entered desk) with ⟨_, checked⟩
  rw [hc] at hgo ht
  subst hgo
  rw [handle_changed p receive hc, Pipeline.conclude]
  rcases hrun : p.compute d at_ checked with ⟨f | report, computed⟩
  · rw [AtDesk.andThen_error hrun]
    exact .failed
  · rw [AtDesk.andThen_ok hrun]
    have hran : ((p.run d at_).run checked.session).1 = .ok report := congrArg Prod.fst hrun
    have hkept : computed.tickets = checked.tickets := (congrArg (·.2.tickets) hrun).symm
    have hstale : computed.tickets.stale desk.tickets.next = false := by
      rw [Bool.eq_false_iff, Ne, Tickets.stale_iff, hkept, ht]
      exact fun h => Int.lt_asymm h hp
    obtain ⟨hpub, hout | ⟨f, hout⟩⟩ := deliver_timely receive d report hstale
    · rw [hkept, ht] at hpub
      rw [hout, hpub]
      exact .published hl hk hran
    · rw [hout]
      exact .failed

theorem handle_handled (p : Pipeline σ) (d : Document) (at_ : Position)
    (receive : Report → Lookup σ Unit) {desk : Desk σ}
    (hr : Tickets.rank desk.tickets.recorded < desk.tickets.next)
    (hp : Tickets.rank desk.tickets.published < desk.tickets.next) :
    Handled p d at_ desk (handle p receive d at_ desk).1
      (handle p receive d at_ desk).2.tickets := by
  obtain ⟨scope, hl⟩ := p.locator.locate_ok d at_ desk.session
  cases hk : desk.tickets.unchanged (scope.map (Scope.identity d)) with
  | true => exact handle_of_known p receive hl hk
  | false => exact handle_of_changed p receive hr hp hl hk

/-- What holds between requests of which none has failed. -/
structure Served (p : Pipeline σ) (session : Session σ) (rs : List (Request σ)) (t : Tickets)
    (reports : List Report) : Prop where
  recorded_lt : Tickets.rank t.recorded < t.next
  published_lt : Tickets.rank t.published < t.next
  last : t.last = rs.getLast?.bind (identity? p session)
  current : ∀ identity ∈ t.last, ∃ d ∈ documents rs, ∃ at_ report scope,
    ((p.run d at_).run session).1 = .ok report ∧ report.scope = some scope ∧
      scope.identity d = identity ∧ reports.getLast? = some report

/-- What an update comes to after the requests `rs`, where `reports` are those published up to then and
with it. -/
structure Followed (p : Pipeline σ) (session : Session σ) (rs : List (Request σ)) (d : Document)
    (at_ : Position) (found : Option Scope.Identity) (outcome : Update.Outcome)
    (reports : List Report) : Prop where
  skipped : outcome = .unchanged ↔
    ∃ identity, found = some identity ∧ rs.getLast?.bind (identity? p session) = some identity
  current : ∃ report last, (∀ s, ((p.run d at_).run s).1 = .ok report) ∧
    (outcome ≠ .unchanged → outcome = .published report) ∧
    reports.getLast? = some last ∧ { last with position := at_ } = report

theorem identity?_eq (hp : p.Steady) {d : Document} {at_ : Position} {scope : Option Scope}
    {s : Session σ} (hl : ((p.locate d at_).run s).1 = .ok scope) (session : Session σ)
    (receive : Report → Lookup σ Unit) :
    (update d at_ receive).identity? p session = scope.map (Scope.identity d) := by
  have hsame : ((p.locate d at_).run session).1 = .ok scope :=
    ((hp.locator.locate d at_).same session s).trans hl
  rw [identity?, Lookup.value?, hsame]
  rfl

/-- A document and a scope are given by the identity of the scope. -/
theorem Versioned.same {rs : List (Request σ)} (hv : Versioned rs) {d d' : Document}
    (hd : d ∈ documents rs) (hd' : d' ∈ documents rs) {scope scope' : Scope}
    (h : scope.identity d = scope'.identity d') : d = d' ∧ scope = scope' := by
  simp only [Scope.identity, Scope.Identity.mk.injEq] at h
  obtain ⟨huri, hversion, hrange, hname⟩ := h
  refine ⟨hv d hd d' hd' huri hversion, ?_⟩
  cases scope
  cases scope'
  cases hrange
  cases hname
  rfl

theorem mem_documents_concat (rs : List (Request σ)) (d : Document) (at_ : Position)
    (receive : Report → Lookup σ Unit) : d ∈ documents (rs ++ [.update d at_ receive]) := by
  rw [documents_concat]
  exact List.mem_append_right _ (List.mem_singleton_self d)

section

variable {session : Session σ} {rs : List (Request σ)} {desk : Desk σ} {answers : List Answer}
  {d : Document} {at_ : Position} {scope : Option Scope} (receive : Report → Lookup σ Unit)

/-- The report that is shown was made somewhere else in the scope of a skipped update. -/
theorem served_skipped (hp : p.Steady)
    (hs : Served p session rs desk.tickets (shown answers))
    (hv : Versioned (rs ++ [.update d at_ receive]))
    (located : ((p.locate d at_).run desk.session).1 = .ok scope)
    (known : desk.tickets.unchanged (scope.map (Scope.identity d)) = true) :
    Served p session (rs ++ [.update d at_ receive])
        { desk.tickets with next := desk.tickets.next + 1 } (shown answers) ∧
      Followed p session rs d at_ (scope.map (Scope.identity d)) .unchanged (shown answers) := by
  have hlt := hs.recorded_lt
  have hlt' := hs.published_lt
  obtain ⟨hsome, hlast⟩ := Traffic.unchanged_iff.mp known
  obtain ⟨identity, hfound⟩ := Option.ne_none_iff_exists'.mp hsome
  obtain ⟨scope, rfl, rfl⟩ := Option.map_eq_some_iff.mp hfound
  obtain ⟨d', hd', at', report, scope', hrun, hscope, heq, hshown⟩ := hs.current _ hlast
  have hd'' : d' ∈ documents (rs ++ [.update d at_ receive]) := by
    rw [documents_concat]
    exact List.mem_append_left _ hd'
  obtain ⟨rfl, rfl⟩ := hv.same hd'' (mem_documents_concat rs d at_ receive) heq
  refine ⟨⟨?_, ?_, ?_, ?_⟩, ?_, ?_⟩
  · simp only
    omega
  · simp only
    omega
  · rw [List.getLast?_concat, Option.bind_some, identity?_eq hp located session receive]
    exact hlast
  · intro identity hmem
    cases hlast.symm.trans hmem
    exact ⟨d', mem_documents_concat rs d' at_ receive, at', report, scope', hrun, hscope, rfl, hshown⟩
  · exact iff_of_true rfl ⟨_, rfl, hs.last.symm.trans hlast⟩
  · have hreport := hp.run_same_scope hrun hscope located
    exact ⟨_, report, fun s => ((hp.run d' at_).same s desk.session).trans hreport, absurd rfl,
      hshown, rfl⟩

theorem served_published (hp : p.Steady)
    (hs : Served p session rs desk.tickets (shown answers)) {report : Report} {s : Session σ}
    (located : ((p.locate d at_).run desk.session).1 = .ok scope)
    (changed : desk.tickets.unchanged (scope.map (Scope.identity d)) = false)
    (ran : ((p.run d at_).run s).1 = .ok report) :
    Served p session (rs ++ [.update d at_ receive])
        ⟨desk.tickets.next + 1, some desk.tickets.next, some desk.tickets.next,
          scope.map (Scope.identity d)⟩ (shown answers ++ [report]) ∧
      Followed p session rs d at_ (scope.map (Scope.identity d)) (.published report)
        (shown answers ++ [report]) := by
  have hsteady (s' : Session σ) : ((p.run d at_).run s').1 = .ok report :=
    ((hp.run d at_).same s' s).trans ran
  have hscope : scope = report.scope := by
    have hlocated := Pipeline.run_scope (hsteady desk.session)
    exact Except.ok.inj (located.symm.trans hlocated)
  refine ⟨⟨?_, ?_, ?_, ?_⟩, ?_, ?_⟩
  · simp only [Tickets.rank_some]
    omega
  · simp only [Tickets.rank_some]
    omega
  · rw [List.getLast?_concat, Option.bind_some, identity?_eq hp located session receive]
  · intro identity hmem
    obtain ⟨scope, rfl, rfl⟩ := Option.map_eq_some_iff.mp hmem
    exact ⟨d, mem_documents_concat rs d at_ receive, at_, report, scope, hsteady session,
      hscope.symm, rfl, List.getLast?_concat⟩
  · refine iff_of_false nofun ?_
    rintro ⟨identity, hfound, hbefore⟩
    have hknown := Traffic.unchanged_iff (t := desk.tickets).mpr
      ⟨hfound ▸ nofun, (hs.last.trans hbefore).trans hfound.symm⟩
    cases changed.symm.trans hknown
  · refine ⟨report, report, hsteady, fun _ => rfl, List.getLast?_concat, ?_⟩
    rw [← Pipeline.run_position ran]

/-- What one update keeps, and what it comes to. -/
theorem served_update (hp : p.Steady)
    (hs : Served p session rs desk.tickets (shown answers))
    (hv : Versioned (rs ++ [.update d at_ receive])) {outcome : Update.Outcome} {t : Tickets}
    (hh : Handled p d at_ desk (.ok outcome) t) :
    Served p session (rs ++ [.update d at_ receive]) t (shown (answers ++ [.ended outcome])) ∧
      Followed p session rs d at_ ((update d at_ receive).identity? p session) outcome
        (shown (answers ++ [.ended outcome])) := by
  cases hh with
  | skipped located known =>
    rw [identity?_eq hp located session receive, shown_unchanged]
    exact served_skipped receive hp hs hv located known
  | published located changed ran =>
    rw [identity?_eq hp located session receive, shown_published]
    exact served_published receive hp hs located changed ran

end

theorem served_reset {session : Session σ} {rs : List (Request σ)} {t : Tickets}
    {reports : List Report} (hs : Served p session rs t reports) :
    Served p session (rs ++ [.reset]) t.reset reports where
  recorded_lt := hs.recorded_lt
  published_lt := hs.published_lt
  last := by rw [List.getLast?_concat]; rfl
  current := nofun

/-- The state in which a host begins. -/
def opening (session : Session σ) : Desk σ := ⟨.initial, session⟩

def Answer.failed : Answer → Bool
  | some (.error _) => true
  | _ => false

/-- No request has failed. -/
def Smooth (answers : List Answer) : Prop := ∀ answer ∈ answers, answer.failed = false

instance (answers : List Answer) : Decidable (Smooth answers) :=
  inferInstanceAs (Decidable (∀ answer ∈ answers, answer.failed = false))

/-- An update that does not fail, after what was served. -/
theorem served_next (hp : p.Steady) {session : Session σ} {rs : List (Request σ)} {desk : Desk σ}
    {answers : List Answer} (hs : Served p session rs desk.tickets (shown answers)) {d : Document}
    {at_ : Position} {receive : Report → Lookup σ Unit}
    (hv : Versioned (rs ++ [.update d at_ receive]))
    (hok : (serve p (.update d at_ receive) desk).1.failed = false) :
    ∃ outcome, (serve p (.update d at_ receive) desk).1 = .ended outcome ∧
      Served p session (rs ++ [.update d at_ receive])
        (serve p (.update d at_ receive) desk).2.tickets (shown (answers ++ [.ended outcome])) ∧
      Followed p session rs d at_ ((update d at_ receive).identity? p session) outcome
        (shown (answers ++ [.ended outcome])) := by
  have hh := handle_handled p d at_ receive hs.recorded_lt hs.published_lt
  change Answer.failed (some (handle p receive d at_ desk).1) = false at hok
  rcases ho : (handle p receive d at_ desk).1 with f | outcome
  · rw [ho] at hok
    cases hok
  · rw [ho] at hh
    exact ⟨outcome, congrArg some ho, served_update receive hp hs hv hh⟩

theorem Versioned.before {rs rs' : List (Request σ)} (hv : Versioned (rs ++ rs')) : Versioned rs := by
  have hsub : documents rs ⊆ documents (rs ++ rs') := by
    rw [documents, documents, List.filterMap_append]
    exact List.subset_append_left _ _
  exact fun d hd d' hd' => hv d (hsub hd) d' (hsub hd')

theorem Smooth.before {answers answers' : List Answer} (hok : Smooth (answers ++ answers')) :
    Smooth answers :=
  fun answer h => hok answer (List.mem_append_left _ h)

theorem served (hp : p.Steady) (session : Session σ) {rs : List (Request σ)} (hv : Versioned rs)
    (hok : Smooth (serveAll p rs (opening session)).1) :
    Served p session rs (serveAll p rs (opening session)).2.tickets
      (shown (serveAll p rs (opening session)).1) := by
  induction rs using List.reverseRecOn with
  | nil => exact ⟨Int.negSucc_lt_zero 0, Int.negSucc_lt_zero 0, rfl, nofun⟩
  | append_singleton rs r ih =>
    rw [serveAll_append] at hok ⊢
    have hs := ih hv.before hok.before
    cases r with
    | reset =>
      have hshown : shown ((serveAll p rs (opening session)).1 ++ [none]) =
          shown (serveAll p rs (opening session)).1 :=
        List.filterMap_append.trans (List.append_nil _)
      change Served p session (rs ++ [.reset]) _ (shown (_ ++ [none]))
      rw [hshown]
      exact served_reset hs
    | update d at_ receive =>
      obtain ⟨outcome, ho, hserved, -⟩ := served_next hp hs hv
        (hok _ (List.mem_append_right _ (List.mem_singleton_self _)))
      change Served p session _ _ (shown (_ ++ [(serve p (.update d at_ receive) _).1]))
      rw [ho]
      exact hserved

/-- Each update of requests that were made one after another is skipped or publishes its report, and
the report that is shown then is up to date. -/
theorem successive_updates (hp : p.Steady) (session : Session σ)
    {requests before after : List (Request σ)} {d : Document} {at_ : Position}
    {receive : Report → Lookup σ Unit} (hv : Versioned requests)
    (hok : Smooth (serveAll p requests (opening session)).1)
    (hsplit : requests = before ++ .update d at_ receive :: after) :
    ∃ outcome, (serveAll p requests (opening session)).1[before.length]? = some (.ended outcome) ∧
      Followed p session before d at_ ((update d at_ receive).identity? p session) outcome
        (shown ((serveAll p requests (opening session)).1.take (before.length + 1))) := by
  subst hsplit
  rw [List.append_cons] at hv hok ⊢
  rw [serveAll_append] at hok ⊢
  replace hv := hv.before
  replace hok := hok.before
  have hlength : (serveAll p (before ++ [update d at_ receive]) (opening session)).1.length =
      before.length + 1 := by
    rw [serveAll_length, List.length_append]
    rfl
  rw [serveAll_append] at hok hlength ⊢
  have hs := served hp session hv.before hok.before
  obtain ⟨outcome, ho, -, hfollowed⟩ := served_next hp hs hv
    (hok _ (List.mem_append_right _ (List.mem_singleton_self _)))
  change (_ ++ [(serve p (.update d at_ receive) _).1]).length = _ at hlength
  change ∃ outcome, ((_ ++ [(serve p (.update d at_ receive) _).1]) ++ _)[before.length]? = _ ∧
    Followed p session before d at_ _ outcome
      (shown (((_ ++ [(serve p (.update d at_ receive) _).1]) ++ _).take _))
  rw [ho] at hlength ⊢
  refine ⟨outcome, ?_, ?_⟩
  · rw [List.append_assoc, List.getElem?_append_right (Nat.le_of_eq (serveAll_length ..)),
      serveAll_length, Nat.sub_self]
    rfl
  · rw [← hlength, List.take_left]
    exact hfollowed

/-- A pipeline without a symbol server or an index. -/
def unaided : Pipeline Unit :=
  ⟨⟨none, 200⟩, (⟨fun _ => Lookup.fail .noHome, none⟩ : Resolver Unit).resolve, 2, []⟩

theorem unaided_steady : unaided.Steady :=
  ⟨nofun, Resolver.Steady.resolve ⟨nofun, fun _ => Lookup.steady_fail _⟩⟩

def twice : Document :=
  ⟨"file:///w/a.js",
    "function a() \x7b\n  b(1);\n  b(2);\n\x7d\nfunction b(x) \x7b\n  return x;\n\x7d\n", none, 0⟩

def twiceEdited : Document := ⟨twice.uri, "function b(x) \x7b\n  b(x);\n\x7d\n", none, 1⟩

def moveTo (d : Document) (at_ : Position) : Request Unit := .update d at_ fun _ => pure ()

/-- The second call of `b` is in the scope of the first one. -/
def toSecondCall : List (Request Unit) :=
  [moveTo twice ⟨1, 2⟩, .reset, moveTo twice ⟨5, 2⟩, moveTo twice ⟨4, 0⟩, moveTo twice ⟨1, 2⟩]

theorem successive_updates_secondCall :
    let requests := toSecondCall ++ [moveTo twice ⟨2, 3⟩, moveTo twiceEdited ⟨1, 2⟩]
    let answers := (serveAll unaided requests (opening ⟨(), []⟩)).1
    unaided.Steady ∧ Versioned requests ∧ Smooth answers ∧
      answers[toSecondCall.length]? = some (.ended .unchanged) ∧
      ((shown answers).map (·.definitions.length)) = [1, 0, 0, 1, 0] := by
  intro requests answers
  have hv : Versioned requests := by
    unfold Versioned
    decide +kernel
  have hok : Smooth answers := by decide +kernel
  obtain ⟨outcome, ho, hfollowed⟩ := successive_updates unaided_steady ⟨(), []⟩ hv hok rfl
  refine ⟨unaided_steady, hv, hok, ho.trans ?_, by decide +kernel⟩
  have hknown : outcome = .unchanged :=
    hfollowed.skipped.mpr ⟨⟨twice.uri, 0, ⟨⟨0, 0⟩, ⟨3, 1⟩, by decide⟩, "a"⟩, by decide +kernel,
      by decide +kernel⟩
  rw [hknown]

end Request

end Callees

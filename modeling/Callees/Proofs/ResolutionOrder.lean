import Callees.Proofs.NumberedAnswers

namespace Callees

namespace Pool

variable {σ : Type} {p : Pipeline σ} {r : Resolver σ} {d : Document}

/-- Where a task stands, as if its name had been the only one. -/
def Task.Sound (p : Pipeline σ) (r : Resolver σ) (d : Document) (asked : σ → String → Nat)
    (s₀ : Session σ) (host : σ) (t : Task) : Prop :=
  match t.stage with
  | .waiting => asked host t.name = asked s₀.host t.name
  | .asked answer => answer = (r.ask t.name s₀).1
  | .ended outcome => outcome = .ok (p.answer d (t.name, s₀))

structure Sound (p : Pipeline σ) (r : Resolver σ) (d : Document) (asked : σ → String → Nat)
    (s₀ : Session σ) (names : List String) (s : Pool σ) : Prop where
  names_eq : s.tasks.map Task.name = names
  tasks : ∀ t ∈ s.tasks, t.Sound p r d asked s₀ s.session.host

variable {asked : σ → String → Nat} {replies : String → Nat → Except Failure (List SymbolInfo)}
  {store : String → Except Failure Document} {s₀ : Session σ}

theorem Sound.name_at {names : List String} {s : Pool σ} (hs : s.Sound p r d asked s₀ names) {i : Nat}
    {t : Task} (ht : s.tasks[i]? = some t) : names[i]? = some t.name := by
  rw [← hs.names_eq, List.getElem?_map, ht]
  rfl

theorem Sound.apart {names : List String} (hn : names.Nodup) {s : Pool σ}
    (hs : s.Sound p r d asked s₀ names) {i j : Nat} {t u : Task} (ht : s.tasks[i]? = some t)
    (hu : s.tasks[j]? = some u) (hij : i ≠ j) : u.name ≠ t.name := by
  intro heq
  have hlt := (List.getElem?_eq_some_iff.mp (hs.name_at ht)).1
  have hnames : names[i]? = names[j]? := by rw [hs.name_at ht, hs.name_at hu, heq]
  exact hij ((List.getElem?_inj hlt hn).mp hnames)

theorem start_sound (names : List String) : (start names s₀).Sound p r d asked s₀ names where
  names_eq := (List.map_map ..).trans (List.map_id _)
  tasks := by
    intro t ht
    obtain ⟨name, -, rfl⟩ := List.mem_map.mp ht
    rfl

section

variable (hr : r.Numbered asked replies store)

include hr

theorem Task.next_other {t : Task} {other : String} (hne : other ≠ t.name) (s : Session σ) :
    asked (t.next p r d s).2.host other = asked s.host other := by
  cases hstage : t.stage with
  | waiting => exact next_waiting (p := p) hstage ▸ hr.ask_other hne s
  | asked answer =>
    rw [next_asked hstage]
    exact congrFun (Pipeline.resumed_keeps hr answer d t.name s) other
  | ended outcome => rw [next_ended hstage]

theorem Task.next_sound (hp : p.resolve = r.resolve) {t : Task} {s : Session σ}
    (ht : t.Sound p r d asked s₀ s.host) (host : σ) :
    ({ t with stage := (t.next p r d s).1 } : Task).Sound p r d asked s₀ host := by
  unfold Sound at ht ⊢
  cases hstage : t.stage with
  | waiting =>
    rw [hstage] at ht
    rw [next_waiting hstage]
    exact hr.ask_eq ht
  | asked answer =>
    rw [hstage] at ht
    rw [next_asked hstage]
    cases ht
    exact Pipeline.resumed_run hr hp d t.name s₀ s
  | ended outcome =>
    rw [hstage] at ht
    rw [next_ended hstage]
    exact ht

/-- The name of the task that takes a step is not that of another one. -/
theorem Task.Sound.next_other {t u : Task} {s : Session σ} (hu : u.Sound p r d asked s₀ s.host)
    (hne : u.name ≠ t.name) : u.Sound p r d asked s₀ (t.next p r d s).2.host := by
  unfold Sound at hu ⊢
  split
  · next hstage =>
    rw [hstage] at hu
    exact (Task.next_other hr hne s).trans hu
  · next hstage => rwa [hstage] at hu
  · next hstage => rwa [hstage] at hu

theorem Sound.step (hp : p.resolve = r.resolve) {names : List String} (hn : names.Nodup)
    {s : Pool σ} (hs : s.Sound p r d asked s₀ names) (i : Nat) :
    (s.step p r d i).Sound p r d asked s₀ names := by
  obtain hstep | ⟨t, ht, -, hstep⟩ := step_cases p r d s i
  · rw [hstep]
    exact hs
  · rw [hstep]
    refine ⟨?_, fun u hu => ?_⟩
    · obtain ⟨hi, hget⟩ := List.getElem?_eq_some_iff.mp (hs.name_at ht)
      simp only [List.map_set, hs.names_eq, ← hget, List.set_getElem_self]
    · obtain ⟨j, hj⟩ := List.mem_iff_getElem?.mp hu
      by_cases hij : i = j
      · subst hij
        rw [List.getElem?_set_self (List.getElem?_eq_some_iff.mp ht).1] at hj
        cases hj
        exact Task.next_sound hr hp (hs.tasks t (List.mem_of_getElem? ht)) _
      · rw [List.getElem?_set_ne hij] at hj
        exact (hs.tasks u (List.mem_of_getElem? hj)).next_other hr (hs.apart hn ht hj hij)

theorem Sound.run (hp : p.resolve = r.resolve) {names : List String} (hn : names.Nodup)
    {s : Pool σ} (hs : s.Sound p r d asked s₀ names) (schedule : List Nat) :
    (s.run p r d schedule).Sound p r d asked s₀ names := by
  induction schedule generalizing s with
  | nil => exact hs
  | cons i schedule ih => exact ih (hs.step hr hp hn i)

end

/-- What sound tasks have found together. -/
theorem collect_sound {tasks : List Task} {host : σ}
    (hs : ∀ t ∈ tasks, t.Sound p r d asked s₀ host) {outcome : Except Failure (List Definition)}
    (h : collect tasks = some outcome) :
    outcome = .ok ((tasks.map Task.name).filterMap fun name => p.answer d (name, s₀)) := by
  induction tasks generalizing outcome with
  | nil =>
    cases h
    rfl
  | cons t tasks ih =>
    obtain ⟨first, hfirst, h⟩ := Option.bind_eq_some_iff.mp h
    obtain ⟨rest, hrest, h⟩ := Option.bind_eq_some_iff.mp h
    have ht := hs t List.mem_cons_self
    have htasks := ih (fun u hu => hs u (List.mem_cons_of_mem t hu)) hrest
    unfold Task.Sound at ht
    cases hstage : t.stage with
    | waiting | asked answer =>
      rw [hstage] at hfirst
      cases hfirst
    | ended ended =>
      rw [hstage] at hfirst ht
      cases hfirst
      cases h
      subst ht htasks
      rw [List.map_cons, List.filterMap_cons]
      cases p.answer d (t.name, s₀) <;> rfl

/-- How many steps a task has before it. -/
def Stage.remaining : Stage → Nat
  | .waiting => 2
  | .asked _ => 1
  | .ended _ => 0

def remaining : List Task → Nat
  | [] => 0
  | t :: ts => t.stage.remaining + remaining ts

theorem collect_done {tasks : List Task} (h : remaining tasks = 0) :
    ∃ outcome, collect tasks = some outcome := by
  induction tasks with
  | nil => exact ⟨_, rfl⟩
  | cons t tasks ih =>
    rw [remaining, Nat.add_eq_zero_iff] at h
    obtain ⟨rest, hrest⟩ := ih h.2
    cases hstage : t.stage with
    | waiting | asked answer =>
      rw [hstage] at h
      cases h.1
    | ended outcome =>
      simp only [collect, hstage, Stage.outcome?, hrest]
      exact ⟨_, rfl⟩

theorem Task.next_remaining (p : Pipeline σ) (r : Resolver σ) (d : Document) (t : Task)
    (s : Session σ) : (t.next p r d s).1.remaining = t.stage.remaining - 1 := by
  cases hstage : t.stage with
  | waiting => rw [next_waiting hstage]; rfl
  | asked answer => rw [next_asked hstage]; rfl
  | ended outcome => rw [next_ended hstage]; rfl

theorem remaining_set {tasks : List Task} {i : Nat} {t : Task} (ht : tasks[i]? = some t) (u : Task) :
    remaining (tasks.set i u) + t.stage.remaining = remaining tasks + u.stage.remaining := by
  induction tasks generalizing i with
  | nil => cases ht
  | cons v tasks ih =>
    cases i with
    | zero =>
      cases ht
      simp only [List.set_cons_zero, remaining]
      omega
    | succ i =>
      have hi := ih ht
      simp only [List.set_cons_succ, remaining]
      omega

theorem Stage.eq_waiting {stage : Stage} (h : stage.isWaiting = true) : stage = .waiting := by
  cases stage with
  | waiting => rfl
  | asked answer | ended outcome => cases h

/-- If nobody is at work and yet not all is done, some name has not been taken up. -/
theorem exists_waiting {tasks : List Task} (h : remaining tasks ≠ 0)
    (hidle : ∀ t ∈ tasks, t.stage.underWay = false) : ∃ t ∈ tasks, t.stage.isWaiting = true := by
  induction tasks with
  | nil => exact absurd rfl h
  | cons t tasks ih =>
    obtain ⟨ht, htasks⟩ := List.forall_mem_cons.mp hidle
    cases hstage : t.stage with
    | waiting => exact ⟨t, List.mem_cons_self, by rw [hstage]; rfl⟩
    | asked answer =>
      rw [hstage] at ht
      cases ht
    | ended outcome =>
      rw [remaining, hstage, Stage.remaining, Nat.zero_add] at h
      obtain ⟨w, hmem, hwaits⟩ := ih h htasks
      exact ⟨w, List.mem_cons_of_mem t hmem, hwaits⟩

/-- Where one name waits, there is a first one. -/
theorem first_waiting {tasks : List Task} (h : ∃ t ∈ tasks, t.stage.isWaiting = true) :
    ∃ i t, tasks[i]? = some t ∧ t.stage = .waiting ∧
      (tasks.take i).all (fun u => !u.stage.isWaiting) = true := by
  have hlt : tasks.findIdx (·.stage.isWaiting) < tasks.length := List.findIdx_lt_length.mpr h
  refine ⟨_, _, List.getElem?_eq_getElem hlt, Stage.eq_waiting (List.findIdx_getElem (w := hlt)),
    List.all_eq_true.mpr fun u hu => ?_⟩
  obtain ⟨j, hj, rfl⟩ := List.mem_take_iff_getElem.mp hu
  rw [List.not_of_lt_findIdx (Nat.lt_of_lt_of_le hj (Nat.min_le_left _ _))]
  rfl

theorem step_remaining {s : Pool σ} {i : Nat} {t : Task} (ht : s.tasks[i]? = some t)
    (hstage : 0 < t.stage.remaining) (ha : s.allows p i t.stage = true) (r : Resolver σ)
    (d : Document) : remaining (s.step p r d i).tasks < remaining s.tasks := by
  have hsum := remaining_set ht { t with stage := (t.next p r d s.session).1 }
  simp only [Task.next_remaining] at hsum
  rw [step_allowed ht ha]
  dsimp only
  omega

/-- As long as something is left to do, some worker can go on. -/
theorem step_possible (hw : 1 ≤ p.maxWorkers) {s : Pool σ} (h : remaining s.tasks ≠ 0) :
    ∃ i t, s.tasks[i]? = some t ∧ 0 < t.stage.remaining ∧ s.allows p i t.stage = true := by
  by_cases hway : ∃ t ∈ s.tasks, t.stage.underWay = true
  · obtain ⟨t, hmem, hway⟩ := hway
    obtain ⟨i, hi⟩ := List.mem_iff_getElem?.mp hmem
    refine ⟨i, t, hi, ?_⟩
    cases hstage : t.stage with
    | asked answer => exact ⟨Nat.one_pos, rfl⟩
    | waiting | ended outcome =>
      rw [hstage] at hway
      cases hway
  · have hidle : ∀ t ∈ s.tasks, ¬ t.stage.underWay = true := fun t ht h => hway ⟨t, ht, h⟩
    obtain ⟨i, t, hi, hstage, hbefore⟩ :=
      first_waiting (exists_waiting h fun t ht => Bool.eq_false_iff.mpr (hidle t ht))
    refine ⟨i, t, hi, ?_⟩
    rw [hstage]
    refine ⟨Nat.two_pos, Bool.and_eq_true_iff.mpr ⟨hbefore, ?_⟩⟩
    -- nobody is at work, so a worker is free if there are workers at all
    have hlt := (List.getElem?_eq_some_iff.mp hi).1
    rw [List.countP_eq_zero.mpr hidle, decide_eq_true_eq, workers]
    omega

theorem run_append (p : Pipeline σ) (r : Resolver σ) (d : Document) (s : Pool σ)
    (schedule rest : List Nat) :
    s.run p r d (schedule ++ rest) = (s.run p r d schedule).run p r d rest :=
  List.foldl_append

theorem finishes (hw : 1 ≤ p.maxWorkers) (r : Resolver σ) (d : Document) (s : Pool σ) :
    ∃ schedule outcome, (s.run p r d schedule).result? = some outcome := by
  induction hn : remaining s.tasks using Nat.strongRecOn generalizing s with
  | ind n ih =>
    by_cases h : remaining s.tasks = 0
    · exact ⟨[], collect_done h⟩
    · obtain ⟨i, t, ht, hstage, ha⟩ := step_possible hw h
      obtain ⟨schedule, houtcome⟩ := ih _ (hn ▸ step_remaining ht hstage ha r d) _ rfl
      exact ⟨i :: schedule, houtcome⟩

/-- The definitions of the names, each as if its name had been the only one: that is what the names come
to one after another, and in every order in which workers can take their steps. And whatever steps they
have taken, they can finish. -/
theorem order_free (hp : p.resolve = r.resolve) (hw : 1 ≤ p.maxWorkers)
    (hr : r.Numbered asked replies store) (d : Document) {names : List String} (hn : names.Nodup)
    (s : Session σ) :
    let found := names.filterMap fun name => ((r.resolve name d).value? s).join
    ((p.resolveAll d names).run s).1 = .ok found ∧
    ∀ schedule, (∀ outcome, ((start names s).run p r d schedule).result? = some outcome →
        outcome = .ok found) ∧
      ∃ rest, ((start names s).run p r d (schedule ++ rest)).result? = some (.ok found) := by
  intro found
  have hfound : (names.filterMap fun name => p.answer d (name, s)) = found := by
    simp only [Pipeline.answer, hp, found]
  have hresult (schedule : List Nat) (outcome : Except Failure (List Definition))
      (h : ((start names s).run p r d schedule).result? = some outcome) : outcome = .ok found := by
    have hs : Sound p r d asked s names ((start names s).run p r d schedule) :=
      (start_sound names).run hr hp hn schedule
    rw [collect_sound hs.tasks h, hs.names_eq, hfound]
  refine ⟨?_, fun schedule => ⟨hresult schedule, ?_⟩⟩
  · obtain ⟨hnone, -⟩ | hall := p.resolveAll_run d names s
    · omega
    · rw [hall, Pipeline.answers_apart hr hp d hn fun _ _ => rfl, hfound]
  · obtain ⟨rest, outcome, h⟩ := finishes hw r d ((start names s).run p r d schedule)
    refine ⟨rest, ?_⟩
    rw [← run_append] at h
    rw [h, hresult _ outcome h]

/-- The server knows `load`, breaks down over `save`, and has never heard of `gone`. -/
def flaky : String → List Scripted.IndexReply
  | "load" => [.symbols [⟨"load", .function, "file:///w/b.js", .onLine ⟨0, 0⟩ 17, none⟩] .all]
  | "save" => [.failure (.reported .unavailable "index crashed")]
  | _ => [.symbols [] .all]

def caller : Document :=
  ⟨"file:///w/a.js", "load(); save(); gone();\nfunction save() \x7b\x7d\n", none, 0⟩

def flakyResolver : Resolver Scripted.Asked :=
  ⟨Scripted.openFrom (.ofList [caller, ⟨"file:///w/b.js", "function load() \x7b\x7d\n", none, 0⟩]),
    some (Scripted.symbols flaky)⟩

def twoWorkers : Pipeline Scripted.Asked := ⟨⟨none, 200⟩, flakyResolver.resolve, 2, []⟩

def loadAndSave : List Definition :=
  [⟨"load", "file:///w/b.js", .onLine ⟨0, 0⟩ 17, "function load() \x7b\x7d", 0, 0, .index⟩,
    ⟨"save", caller.uri, .onLine ⟨1, 0⟩ 18, "function save() \x7b\x7d", 1, 1, .local_⟩]

/-- The second worker is through with two names before the first one is with its own. -/
theorem order_free_overtaking :
    let names := ["load", "gone", "save"]
    let session : Session Scripted.Asked := ⟨.nothing, []⟩
    1 ≤ twoWorkers.maxWorkers ∧ names.Nodup ∧
      ((start names session).run twoWorkers flakyResolver caller [0, 1, 1, 2, 2, 0]).result? =
        some (.ok loadAndSave) ∧
      ((twoWorkers.resolveAll caller names).run session).1 = .ok loadAndSave := by
  intro names session
  have hn : names.Nodup := by decide
  have hresult : ((start names session).run twoWorkers flakyResolver caller
      [0, 1, 1, 2, 2, 0]).result? = some (.ok loadAndSave) := by decide +kernel
  obtain ⟨hall, hruns⟩ := order_free (p := twoWorkers) rfl (by decide)
    (Scripted.numbered flaky _) caller hn session
  exact ⟨by decide, hn, hresult, hall.trans ((hruns _).1 _ hresult).symm⟩

end Pool

end Callees

import Mathlib.Data.List.Nodup
import Callees.Proofs.Steady
import Callees.Proofs.WrittenData
import Callees.Verify

namespace Callees.Repetition

/-- A set of names written down in order. -/
structure SortedSet (names : List String) (P : String → Prop) : Prop where
  increasing : names.Pairwise (· < ·)
  mem_iff : ∀ n, n ∈ names ↔ P n

theorem mem_insertName {n name : String} {names : List String} :
    n ∈ insertName name names ↔ n = name ∨ n ∈ names := by
  induction names with
  | nil => rw [insertName, List.mem_singleton, or_iff_left List.not_mem_nil]
  | cons m names ih =>
    rw [insertName]
    split
    · exact List.mem_cons
    split
    · next h => rw [h, List.mem_cons, ← or_assoc, or_self]
    · rw [List.mem_cons, ih, List.mem_cons, or_left_comm]

theorem insertName_increasing (name : String) {names : List String} (h : names.Pairwise (· < ·)) :
    (insertName name names).Pairwise (· < ·) := by
  induction names with
  | nil => exact List.pairwise_singleton _ _
  | cons m names ih =>
    obtain ⟨hm, hnames⟩ := List.pairwise_cons.mp h
    rw [insertName]
    split
    · next hlt =>
      exact List.pairwise_cons.mpr ⟨List.forall_mem_cons.mpr ⟨hlt, fun n hn =>
        String.lt_trans hlt (hm n hn)⟩, h⟩
    split
    · exact h
    · next hge hne =>
      have hlt : m < name := (Std.le_iff_lt_or_eq.mp (String.not_lt.mp hge)).resolve_right hne
      refine List.pairwise_cons.mpr ⟨fun n hn => ?_, ih hnames⟩
      rcases mem_insertName.mp hn with rfl | hn
      · exact hlt
      · exact hm n hn

theorem nameSet_sortedSet (names : List String) : SortedSet (nameSet names) (· ∈ names) := by
  induction names with
  | nil => exact ⟨.nil, fun _ => Iff.rfl⟩
  | cons name names ih =>
    refine ⟨insertName_increasing name ih.increasing, fun n => ?_⟩
    rw [nameSet, List.foldr_cons, mem_insertName, List.mem_cons]
    exact or_congr_right (ih.mem_iff n)

theorem SortedSet.congr {names : List String} {P Q : String → Prop} (h : SortedSet names P)
    (hpq : ∀ n, P n ↔ Q n) : SortedSet names Q :=
  ⟨h.increasing, fun n => (h.mem_iff n).trans (hpq n)⟩

/-- Definitions with distinct names that can be written. -/
structure Comparable (found : List Definition) : Prop where
  distinct : (found.map Definition.name).Nodup
  fits : ∀ d ∈ found, Json.fits d.toData = true

instance (found : List Definition) : Decidable (Comparable found) :=
  decidable_of_iff ((found.map Definition.name).Nodup ∧ ∀ d ∈ found, Json.fits d.toData = true)
    ⟨fun h => ⟨h.1, h.2⟩, fun h => ⟨h.distinct, h.fits⟩⟩

def entries (found : List Definition) : List (String × String) :=
  found.map fun d => (d.name, d.line)

theorem written_eq {found : List Definition} (h : ∀ d ∈ found, Json.fits d.toData = true) :
    written found = some (entries found) := by
  induction found with
  | nil => rfl
  | cons d found ih =>
    obtain ⟨hd, hfound⟩ := List.forall_mem_cons.mp h
    have htext := Definition.text?_toData hd
    rw [written, List.mapM_cons, htext, show found.mapM _ = _ from ih hfound]
    rfl

theorem entries_names (found : List Definition) :
    (entries found).map Prod.fst = found.map Definition.name := by
  rw [entries, List.map_map]
  rfl

theorem lookup_eq_none {n : String} {es : List (String × String)} :
    lookup n es = none ↔ n ∉ es.map Prod.fst := by
  rw [lookup, List.lookup_eq_none_iff, List.mem_map, not_exists]
  simp only [List.mem_reverse, bne_iff_ne, not_and]
  exact forall₂_congr fun _ _ => ne_comm

theorem assoc_iff_mem {n t : String} {es : List (String × String)} (h : (es.map Prod.fst).Nodup) :
    es.lookup n = some t ↔ (n, t) ∈ es := by
  induction es with
  | nil => exact iff_of_false (by simp) List.not_mem_nil
  | cons e es ih =>
    obtain ⟨m, u⟩ := e
    obtain ⟨hm, hes⟩ := List.nodup_cons.mp h
    rw [List.lookup_cons, List.mem_cons, ← ih hes, Prod.mk.injEq]
    by_cases hn : n = m
    · subst hn
      have hnone : es.lookup n = none := List.lookup_eq_none_iff.mpr fun e he =>
        bne_iff_ne.mpr fun hne => hm (List.mem_map.mpr ⟨e, he, hne.symm⟩)
      rw [hnone, beq_self_eq_true]
      simp [eq_comm]
    · simp [beq_false_of_ne hn, hn]

/-- Where the names are distinct, it does not matter that the last entry of a name counts. -/
theorem lookup_eq_some {n t : String} {es : List (String × String)} (h : (es.map Prod.fst).Nodup) :
    lookup n es = some t ↔ (n, t) ∈ es := by
  have hreverse : (es.reverse.map Prod.fst).Nodup := by
    rw [List.map_reverse]
    exact List.nodup_reverse.mpr h
  rw [lookup, assoc_iff_mem hreverse, List.mem_reverse]

theorem mem_absent {n : String} {names : List String} {found : List Definition} :
    (n ∈ names.filter fun n => (lookup n (entries found)).isNone) ↔
      n ∈ names ∧ n ∉ found.map Definition.name := by
  rw [List.mem_filter, Option.isNone_iff_eq_none, lookup_eq_none, entries_names]

theorem mem_entries {n t : String} {found : List Definition} :
    (n, t) ∈ entries found ↔ ∃ d ∈ found, d.name = n ∧ d.line = t := by
  simp only [entries, List.mem_map, Prod.mk.injEq]

/-- What the comparison tells: whether every later run found the same, and if not, the names that some
later run lacks, has in addition, or has with another definition. -/
structure Tells (first : List Definition) (later : List (List Definition)) (result : Repetition) : Prop where
  ok_iff : result.ok = true ↔ ∀ run ∈ later, run = first
  names : result.names = first.map Definition.name
  missing : SortedSet result.missing fun n =>
    n ∈ first.map Definition.name ∧ ∃ run ∈ later, n ∉ run.map Definition.name
  extra : SortedSet result.extra fun n =>
    n ∉ first.map Definition.name ∧ ∃ run ∈ later, n ∈ run.map Definition.name
  mismatches : SortedSet result.mismatches fun n =>
    ∃ run ∈ later, ∃ x ∈ first, x.name = n ∧ ∃ y ∈ run, y.name = n ∧ y ≠ x

/-- A name stands for different texts where it stands for different definitions. -/
theorem mismatch_iff {first run : List Definition} (hfirst : (first.map Definition.name).Nodup)
    (hrun : (run.map Definition.name).Nodup) (n : String) :
    (n ∈ first.map Definition.name ∧
      (lookup n (entries run)).any (fun text => lookup n (entries first) != some text) = true) ↔
    ∃ x ∈ first, x.name = n ∧ ∃ y ∈ run, y.name = n ∧ y ≠ x := by
  have hdistinct := hfirst
  rw [← entries_names] at hfirst hrun
  simp only [Option.any_eq_true, lookup_eq_some hrun, bne_iff_ne, ne_eq, lookup_eq_some hfirst, mem_entries]
  constructor
  · rintro ⟨hn, t, ⟨y, hy, hyn, rfl⟩, hdiffers⟩
    obtain ⟨x, hx, hxn⟩ := List.mem_map.mp hn
    exact ⟨x, hx, hxn, y, hy, hyn, fun h => hdiffers ⟨x, hx, hxn, congrArg Definition.line h.symm⟩⟩
  · rintro ⟨x, hx, hxn, y, hy, hyn, hne⟩
    refine ⟨List.mem_map.mpr ⟨x, hx, hxn⟩, y.line, ⟨y, hy, hyn, rfl⟩, ?_⟩
    rintro ⟨x', hx', hx'n, hline⟩
    have hxx' : x' = x := List.inj_on_of_nodup_map hdistinct hx' hx (hx'n.trans hxn.symm)
    exact hne (Definition.line_injective (hxx' ▸ hline).symm)

/-- Names in the same order and no name with two definitions: the runs are the same. -/
theorem eq_of_names {first run : List Definition} (hnames : run.map Definition.name = first.map Definition.name)
    (hsame : ∀ x ∈ first, ∀ y ∈ run, y.name = x.name → y = x) : run = first := by
  induction first generalizing run with
  | nil => exact List.map_eq_nil_iff.mp hnames
  | cons x first ih =>
    obtain ⟨y, run, rfl, hy, hrun⟩ := List.map_eq_cons_iff.mp hnames
    rw [hsame x List.mem_cons_self y List.mem_cons_self hy, ih hrun fun x' hx' y' hy' =>
      hsame x' (List.mem_cons_of_mem _ hx') y' (List.mem_cons_of_mem _ hy')]

section

variable {first : List Definition} {later : List (List Definition)}

theorem mem_missing {n : String} : (n ∈ (later.map entries).flatMap fun run =>
      ((entries first).map Prod.fst).filter fun n => (lookup n run).isNone) ↔
    n ∈ first.map Definition.name ∧ ∃ run ∈ later, n ∉ run.map Definition.name := by
  simp only [List.flatMap_map, List.mem_flatMap, mem_absent, entries_names]
  exact ⟨fun ⟨run, hrun, hn, habsent⟩ => ⟨hn, run, hrun, habsent⟩,
    fun ⟨hn, run, hrun, habsent⟩ => ⟨run, hrun, hn, habsent⟩⟩

theorem mem_extra {n : String} : (n ∈ (later.map entries).flatMap fun run =>
      (run.map Prod.fst).filter fun n => (lookup n (entries first)).isNone) ↔
    n ∉ first.map Definition.name ∧ ∃ run ∈ later, n ∈ run.map Definition.name := by
  simp only [List.flatMap_map, List.mem_flatMap, mem_absent, entries_names]
  exact ⟨fun ⟨run, hrun, hn, habsent⟩ => ⟨habsent, run, hrun, hn⟩,
    fun ⟨habsent, run, hrun, hn⟩ => ⟨run, hrun, hn, habsent⟩⟩

theorem mem_mismatches (hfirst : (first.map Definition.name).Nodup)
    (hlater : ∀ run ∈ later, (run.map Definition.name).Nodup) {n : String} :
    (n ∈ (later.map entries).flatMap fun run => ((entries first).map Prod.fst).filter fun n =>
      (lookup n run).any fun text => lookup n (entries first) != some text) ↔
    ∃ run ∈ later, ∃ x ∈ first, x.name = n ∧ ∃ y ∈ run, y.name = n ∧ y ≠ x := by
  rw [List.flatMap_map, List.mem_flatMap]
  refine exists_congr fun run => and_congr_right fun hrun => ?_
  rw [List.mem_filter, entries_names]
  exact mismatch_iff hfirst (hlater run hrun) n

theorem compare_ok_iff (runs : Int) (hfirst : (first.map Definition.name).Nodup)
    (hlater : ∀ run ∈ later, (run.map Definition.name).Nodup) :
    (compare runs (entries first) (later.map entries)).ok = true ↔ ∀ run ∈ later, run = first := by
  simp only [compare, Bool.and_eq_true, List.isEmpty_iff, List.eq_nil_iff_forall_not_mem, mem_missing, mem_extra,
    mem_mismatches hfirst hlater, Bool.not_eq_true', List.any_map, List.any_eq_false, Function.comp_apply,
    bne_iff_ne, not_not]
  simp only [entries_names]
  constructor
  · rintro ⟨⟨-, hsame⟩, hnames⟩ run hrun
    exact eq_of_names (hnames run hrun) fun x hx y hy hyx => by_contra fun hne =>
      hsame x.name ⟨run, hrun, x, hx, rfl, y, hy, hyx, hne⟩
  · intro h
    refine ⟨⟨⟨?_, ?_⟩, ?_⟩, ?_⟩
    · rintro n ⟨hn, run, hrun, habsent⟩
      exact habsent (h run hrun ▸ hn)
    · rintro n ⟨habsent, run, hrun, hn⟩
      exact habsent (h run hrun ▸ hn)
    · rintro n ⟨run, hrun, x, hx, hxn, y, hy, hyn, hne⟩
      exact hne (List.inj_on_of_nodup_map hfirst (h run hrun ▸ hy) hx (hyn.trans hxn.symm))
    · intro run hrun
      rw [h run hrun]

theorem compare_tells (runs : Int) (hfirst : (first.map Definition.name).Nodup)
    (hlater : ∀ run ∈ later, (run.map Definition.name).Nodup) :
    Tells first later (compare runs (entries first) (later.map entries)) where
  ok_iff := compare_ok_iff runs hfirst hlater
  names := entries_names first
  missing := (nameSet_sortedSet _).congr fun _ => mem_missing
  extra := (nameSet_sortedSet _).congr fun _ => mem_extra
  mismatches := (nameSet_sortedSet _).congr fun _ => mem_mismatches hfirst hlater

end

variable {σ : Type}

/-- Reports of runs one after another, each in the session that the run before it left. -/
inductive Successive (p : Pipeline σ) (d : Document) (at_ : Position) :
    Session σ → List Report → Session σ → Prop
  | done (s : Session σ) : Successive p d at_ s [] s
  | run {s s' s'' : Session σ} {report : Report} {reports : List Report}
      (returned : (p.run d at_).run s = (.ok report, s'))
      (rest : Successive p d at_ s' reports s'') : Successive p d at_ s (report :: reports) s''

theorem Successive.cons {p : Pipeline σ} {d : Document} {at_ : Position} {s s' : Session σ}
    {report : Report} {reports : List Report} (h : ((p.run d at_).run s).1 = .ok report)
    (rest : Successive p d at_ ((p.run d at_).run s).2 reports s') :
    Successive p d at_ s (report :: reports) s' :=
  .run (Prod.ext h rfl) rest

theorem writtenRun_run {p : Pipeline σ} {d : Document} {at_ : Position} {s s' : Session σ}
    {report : Report} (h : (p.run d at_).run s = (.ok report, s'))
    (hfits : ∀ x ∈ report.definitions, Json.fits x.toData = true) :
    (writtenRun p d at_).run s = (.ok (entries report.definitions), s') := by
  rw [writtenRun, Lookup.run_bind, h]
  simp only [written_eq hfits]
  rfl

theorem laterRuns_run {p : Pipeline σ} {d : Document} {at_ : Position} {s s' : Session σ}
    {reports : List Report} (h : Successive p d at_ s reports s')
    (hfits : ∀ report ∈ reports, ∀ x ∈ report.definitions, Json.fits x.toData = true) :
    (laterRuns p d at_ reports.length).run s =
      (.ok ((reports.map Report.definitions).map entries), s') := by
  induction h with
  | done s => rfl
  | run returned rest ih =>
    obtain ⟨hreport, hreports⟩ := List.forall_mem_cons.mp hfits
    rw [List.length_cons, laterRuns, Lookup.run_bind, writtenRun_run returned hreport]
    simp only [Lookup.run_bind, ih hreports]
    rfl

/-- Whatever the runs of a pipeline return, the result tells how the later ones differ from the first. -/
theorem verify_tells {p : Pipeline σ} {d : Document} {at_ : Position} {runs : Int} {s s' : Session σ}
    {first : Report} {later : List Report} (hruns : 2 ≤ runs) (hlater : (later.length : Int) + 1 = runs)
    (h : Successive p d at_ s (first :: later) s')
    (hc : ∀ report ∈ first :: later, Comparable report.definitions) :
    ∃ result, (verify p d at_ runs).run s = (.ok result, s') ∧ result.runs = runs ∧
      Tells first.definitions (later.map Report.definitions) result := by
  obtain ⟨hfirst, hrest⟩ := List.forall_mem_cons.mp hc
  cases h with
  | run returned rest =>
    refine ⟨_, ?_, rfl, compare_tells runs hfirst.distinct ?_⟩
    · have hn : (runs - 1).toNat = later.length := by omega
      rw [verify, if_neg (by omega), hn, Lookup.run_bind, writtenRun_run returned hfirst.fits]
      simp only [Lookup.run_bind, laterRuns_run rest fun report hr => (hrest report hr).fits]
      rfl
    · intro run hrun
      obtain ⟨report, hreport, rfl⟩ := List.mem_map.mp hrun
      exact (hrest report hreport).distinct

def drifting : Document :=
  ⟨"file:///drifting.js", "function main() \x7b first(); second(); \x7d\n", none, 0⟩

def drifted (name content : String) : Definition :=
  ⟨name, drifting.uri, .onLine ⟨0, 0⟩ 4, content, 0, 0, .local_⟩

/-- The answers to the lookups of all runs. The host counts the lookups. -/
def driftingAnswers : List (Option Definition) :=
  [some (drifted "first" "1"), none, some (drifted "first" "2"), some (drifted "second" "1"), none, none]

def driftingPipeline : Pipeline Nat :=
  ⟨⟨some fun _ => pure [.node "main" .function (.onLine ⟨0, 0⟩ 40) []], 200⟩,
    fun _ _ => Lookup.host fun n => (.ok (driftingAnswers[n]?).join, n + 1), 1, []⟩

def driftingReport (definitions : List Definition) : Report :=
  ⟨drifting.uri, ⟨0, 20⟩, some ⟨.onLine ⟨0, 0⟩ 40, "main"⟩,
    [⟨"first", .onLine ⟨0, 18⟩ 5, 0, 18⟩, ⟨"second", .onLine ⟨0, 27⟩ 6, 0, 27⟩], definitions⟩

def driftingResult : Repetition :=
  ⟨false, 3, ["first"], ["first"], ["first"], ["second"]⟩

/-- The second run has another definition of one name and a name of its own; the third has none. -/
theorem verify_tells_drifting :
    ((verify driftingPipeline drifting ⟨0, 20⟩ 3).run ⟨0, []⟩).1 = .ok driftingResult ∧
      Tells [drifted "first" "1"] [[drifted "first" "2", drifted "second" "1"], []] driftingResult := by
  have hruns : Successive driftingPipeline drifting ⟨0, 20⟩ ⟨0, []⟩ [driftingReport [drifted "first" "1"],
      driftingReport [drifted "first" "2", drifted "second" "1"], driftingReport []] _ :=
    .cons (by decide +kernel) (.cons (by decide +kernel) (.cons (by decide +kernel) (.done _)))
  have hresult : ((verify driftingPipeline drifting ⟨0, 20⟩ 3).run ⟨0, []⟩).1 = .ok driftingResult := by
    decide +kernel
  obtain ⟨result, hverify, -, htells⟩ :=
    verify_tells (show (2 : Int) ≤ 3 by decide) rfl hruns (by decide)
  rw [hverify, Except.ok.injEq] at hresult
  exact ⟨by rw [hverify, hresult], hresult ▸ htells⟩

end Callees.Repetition

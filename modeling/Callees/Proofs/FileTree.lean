import Mathlib.Data.List.Induction
import Callees.Files

namespace Callees

/-- What an entry of a folder can be called. -/
structure Path.Plain (n : String) : Prop where
  nonempty : n ≠ ""
  here : n ≠ "."
  up : n ≠ ".."
  slash : '/' ∉ n.toList
  null : '\x00' ∉ n.toList

instance (n : String) : Decidable (Path.Plain n) :=
  decidable_of_iff (n ≠ "" ∧ n ≠ "." ∧ n ≠ ".." ∧ '/' ∉ n.toList ∧ '\x00' ∉ n.toList)
    ⟨fun h => ⟨h.1, h.2.1, h.2.2.1, h.2.2.2.1, h.2.2.2.2⟩,
      fun h => ⟨h.nonempty, h.here, h.up, h.slash, h.null⟩⟩

/-- The path that leads along names, from wherever one is. -/
def Path.along (names : List String) : Path := ⟨"", names⟩

namespace Files

/-- No place has two entries, and each entry but the root lies in a folder, under a name. -/
structure IsTree (fs : Files) : Prop where
  distinct : (fs.entries.map Prod.fst).Nodup
  below : ∀ e ∈ fs.entries, e.1 ≠ []
  plain : ∀ e ∈ fs.entries, ∀ n ∈ e.1, Path.Plain n
  inFolder : ∀ e ∈ fs.entries, fs.entry? e.1.dropLast = some .folder

variable {fs : Files} {place stop names rest : List String} {e : Entry} {p : Path}

theorem mem_of_entry_eq (hne : place ≠ []) (h : fs.entry? place = some e) : (place, e) ∈ fs.entries := by
  unfold entry? at h
  rw [if_neg hne, List.lookup_eq_some_iff] at h
  obtain ⟨before, after, heq, -⟩ := h
  rw [heq]
  exact List.mem_append_right _ List.mem_cons_self

theorem entry?_of_distinct (h : (fs.entries.map Prod.fst).Nodup) (hne : place ≠ [])
    (he : (place, e) ∈ fs.entries) : fs.entry? place = some e := by
  unfold entry?
  rw [if_neg hne, List.lookup_eq_some_iff]
  obtain ⟨before, after, heq⟩ := List.append_of_mem he
  refine ⟨before, after, heq, fun old hold => ?_⟩
  rw [heq, List.map_append, List.nodup_append] at h
  have hne := h.2.2 _ (List.mem_map_of_mem hold) place (List.mem_map_of_mem List.mem_cons_self)
  simpa using hne.symm

namespace IsTree

variable (h : fs.IsTree)
include h

theorem entry?_of_mem (he : (place, e) ∈ fs.entries) : fs.entry? place = some e :=
  entry?_of_distinct h.distinct (h.below _ he) he

/-- Whatever lies somewhere below a place makes a folder of it. -/
theorem folder_above (hne : names ≠ []) (he : (place ++ names, e) ∈ fs.entries) :
    fs.entry? place = some .folder := by
  induction names using List.reverseRecOn generalizing e with
  | nil => exact absurd rfl hne
  | append_singleton names n ih =>
    have hfolder := h.inFolder _ he
    rw [← List.append_assoc, List.dropLast_concat] at hfolder
    by_cases hnames : names = []
    · rw [hnames, List.append_nil] at hfolder
      exact hfolder
    · refine ih hnames (mem_of_entry_eq ?_ hfolder)
      exact List.append_ne_nil_of_right_ne_nil _ hnames

/-- Names that lead through folders alone stand for the place that they spell. -/
theorem locate_names {follow : Bool} {links : Nat} (hne : names ≠ [])
    (he : (place ++ names, e) ∈ fs.entries) (hlink : follow = true → ∀ target, e ≠ .link target) :
    fs.locate follow links place names = .ok (place ++ names) := by
  induction names generalizing place with
  | nil => exact absurd rfl hne
  | cons n rest ih =>
    have hup : n ≠ ".." := (h.plain _ he n (by simp)).up
    rw [List.append_cons] at he ⊢
    rw [locate, if_neg hup]
    by_cases hrest : rest = []
    · subst hrest
      rw [List.append_nil] at he ⊢
      rw [h.entry?_of_mem he]
      cases e with
      | folder => rw [locate]
      | file bytes => rfl
      | link target =>
        cases follow with
        | false => rfl
        | true => exact absurd rfl (hlink rfl target)
    · rw [h.folder_above hrest he]
      exact ih hrest he

end IsTree

/-- The names in `rest`, from `place` on, lead to an entry at `stop` by way of at most so many links. -/
inductive Leads (fs : Files) (stop : List String) : Nat → List String → List String → Prop
  | done {links : Nat} : Leads fs stop links stop []
  | up {links : Nat} {place rest : List String} (next : Leads fs stop links place.dropLast rest) :
      Leads fs stop links place (".." :: rest)
  | folder {links : Nat} {place rest : List String} {n : String} (named : n ≠ "..")
      (here : fs.entry? (place ++ [n]) = some .folder) (next : Leads fs stop links (place ++ [n]) rest) :
      Leads fs stop links place (n :: rest)
  | file {links : Nat} {place : List String} {n : String} {bytes : List UInt8} (named : n ≠ "..")
      (here : fs.entry? (place ++ [n]) = some (.file bytes)) (last : place ++ [n] = stop) :
      Leads fs stop links place [n]
  | link {links : Nat} {place rest : List String} {n : String} {target : Path} (named : n ≠ "..")
      (here : fs.entry? (place ++ [n]) = some (.link target))
      (next : Leads fs stop links (linked place target rest).1 (linked place target rest).2) :
      Leads fs stop (links + 1) place (n :: rest)

theorem leads_of_locate {links : Nat} (h : fs.locate true links place rest = .ok stop) :
    fs.Leads stop links place rest := by
  fun_induction fs.locate true links place rest with
  | case1 =>
    cases h
    exact .done
  | case2 links place rest ih => exact .up (ih h)
  | case4 links place n rest named here ih => exact .folder named here (ih h)
  | case5 links place n rest named bytes here last =>
    cases h
    rw [List.isEmpty_iff.mp last]
    exact .file named here rfl
  | case7 links place n rest named target here hstays => simp at hstays
  | case9 place n rest named target here hgoes links folder names hlinked ih =>
    refine .link named here ?_
    rw [hlinked]
    exact ih h
  | case3 | case6 | case8 => cases h

namespace Leads

/-- Past a folder that names lead to, a path is looked up from there. -/
theorem append {links : Nat} {more : List String} (h : fs.Leads stop links place rest)
    (hfolder : fs.entry? stop = some .folder) (hmore : more ≠ []) :
    ∃ links', ∀ follow,
      fs.locate follow links place (rest ++ more) = fs.locate follow links' stop more := by
  induction h with
  | @done links => exact ⟨links, fun follow => rfl⟩
  | up next ih =>
    obtain ⟨links', hlater⟩ := ih
    refine ⟨links', fun follow => ?_⟩
    rw [List.cons_append, locate, if_pos rfl, hlater]
  | folder named here next ih =>
    obtain ⟨links', hlater⟩ := ih
    refine ⟨links', fun follow => ?_⟩
    rw [List.cons_append, locate, if_neg named, here]
    exact hlater follow
  | file named here last =>
    rw [last, hfolder] at here
    cases here
  | @link links place rest n target named here next ih =>
    obtain ⟨links', hlater⟩ := ih
    refine ⟨links', fun follow => ?_⟩
    rw [List.cons_append, locate, if_neg named, here]
    have hempty : (rest ++ more).isEmpty = false := by simp [hmore]
    simp only [hempty, Bool.false_and, Bool.false_eq_true, if_false]
    rw [← hlater follow]
    simp only [linked, List.append_assoc]

/-- Where everything exists, making a path canonical comes to looking it up. -/
theorem settle {links : Nat} {seen : List (List String)} {again : Option (List String)}
    (h : fs.Leads stop links place rest) : fs.settle links seen again place rest = .ok stop := by
  induction h generalizing seen again with
  | done => rw [Files.settle]
  | up next ih => rw [Files.settle, if_pos rfl, ih]
  | folder named here next ih =>
    rw [Files.settle, if_neg named, here]
    exact ih
  | file named here last =>
    rw [Files.settle, if_neg named, here]
    simp only
    rw [Files.settle, last]
  | link named here next ih =>
    rw [Files.settle, if_neg named, here]
    exact ih

theorem no_null {links : Nat} (h : fs.Leads stop links place rest) (hfs : fs.IsTree) :
    ∀ n ∈ rest, '\x00' ∉ n.toList := by
  have hnamed {place : List String} {n : String} {e : Entry} (here : fs.entry? (place ++ [n]) = some e) :
      '\x00' ∉ n.toList :=
    (hfs.plain _ (mem_of_entry_eq (by simp) here) n (by simp)).null
  induction h with
  | done => exact nofun
  | up next ih => exact List.forall_mem_cons.mpr ⟨by decide, ih⟩
  | folder named here next ih => exact List.forall_mem_cons.mpr ⟨hnamed here, ih⟩
  | file named here last => exact List.forall_mem_cons.mpr ⟨hnamed here, nofun⟩
  | link named here next ih =>
    exact List.forall_mem_cons.mpr ⟨hnamed here, fun m hm => ih m (List.mem_append_right _ hm)⟩

end Leads

namespace IsTree

variable (h : fs.IsTree)
include h

/-- The canonical form of a path to something that exists. -/
theorem resolve_eq (hp : fs.locatePath true p = .ok place) : fs.resolve p = .ok (Path.absolute place) := by
  have hleads := leads_of_locate hp
  have hnull : (p.names.any (·.contains '\x00')) = false := by
    rw [List.any_eq_false]
    intro n hn
    rw [String.contains_char_eq, decide_eq_true_eq]
    refine hleads.no_null h n ?_
    rw [absolute]
    split
    · exact hn
    · exact List.mem_append_right _ hn
  rw [resolve, hnull]
  simp only [Bool.false_eq_true, if_false, hleads.settle]

/-- An entry below a folder is where its names say, seen from the folder's place. -/
theorem locatePath_join {folder : Path} (follow : Bool)
    (hfolder : fs.locatePath true folder = .ok place) (hne : names ≠ [])
    (he : (place ++ names, e) ∈ fs.entries)
    (hlink : follow = true → ∀ target, e ≠ .link target) :
    fs.locatePath follow (folder.join (.along names)) = .ok (place ++ names) := by
  have hjoin : fs.absolute (folder.join (.along names)) = fs.absolute folder ++ names := by
    have hrelative : (Path.along names).isAbsolute = false := rfl
    have hroot : (⟨folder.root, folder.names ++ names⟩ : Path).isAbsolute = folder.isAbsolute := rfl
    rw [Path.join, hrelative, absolute, absolute]
    simp only [Bool.false_eq_true, if_false, Path.along, hroot]
    split <;> simp only [List.append_assoc]
  obtain ⟨links, hlater⟩ := (leads_of_locate hfolder).append (h.folder_above hne he) hne
  rw [locatePath, hjoin, hlater]
  exact h.locate_names hne he hlink

end IsTree

/-- What is found at a place does not hang on the order in which the entries are listed. -/
theorem IsTree.entry?_perm {fs' : Files} (h : fs.IsTree) (hperm : fs.entries.Perm fs'.entries)
    (place : List String) : fs.entry? place = fs'.entry? place := by
  by_cases hne : place = []
  · unfold entry?
    rw [if_pos hne, if_pos hne]
  · have hdistinct := (hperm.map Prod.fst).nodup_iff.mp h.distinct
    refine Option.ext fun e => ⟨fun he => ?_, fun he => ?_⟩
    · exact entry?_of_distinct hdistinct hne (hperm.mem_iff.mp (mem_of_entry_eq hne he))
    · exact h.entry?_of_mem (hperm.mem_iff.mpr (mem_of_entry_eq hne he))

theorem IsTree.perm {fs' : Files} (h : fs.IsTree) (hperm : fs.entries.Perm fs'.entries) :
    fs'.IsTree where
  distinct := (hperm.map Prod.fst).nodup_iff.mp h.distinct
  below e he := h.below e (hperm.mem_iff.mpr he)
  plain e he := h.plain e (hperm.mem_iff.mpr he)
  inFolder e he := (h.entry?_perm hperm _).symm.trans (h.inFolder e (hperm.mem_iff.mpr he))

theorem locate_congr {fs' : Files} (h : ∀ place, fs.entry? place = fs'.entry? place) (follow : Bool)
    (links : Nat) (place rest : List String) :
    fs.locate follow links place rest = fs'.locate follow links place rest := by
  fun_induction fs.locate follow links place rest with
  | case1 => rw [locate]
  | case2 links place rest ih => rw [locate, if_pos rfl, ih]
  | case3 links place n rest named here => rw [locate, if_neg named, ← h, here]
  | case4 links place n rest named here ih =>
    rw [locate, if_neg named, ← h, here]
    exact ih
  | case5 links place n rest named bytes here last =>
    rw [locate, if_neg named, ← h, here]
    exact (if_pos last).symm
  | case6 links place n rest named bytes here more =>
    rw [locate, if_neg named, ← h, here]
    exact (if_neg more).symm
  | case7 links place n rest named target here stays =>
    rw [locate, if_neg named, ← h, here]
    exact (if_pos stays).symm
  | case8 place n rest named target here goes =>
    rw [locate, if_neg named, ← h, here]
    exact (if_neg goes).symm
  | case9 place n rest named target here goes links folder names hlinked ih =>
    rw [locate, if_neg named, ← h, here]
    simp only [goes, Bool.false_eq_true, if_false, hlinked]
    exact ih

end Files

end Callees

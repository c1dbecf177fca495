import Mathlib.Data.List.Basic
import Callees.Proofs.FileTree
import Callees.Proofs.Lines

namespace Callees

namespace Text

theorem splitOnChar_eq_splitOn (sep : Char) (cs : List Char) : splitOnChar sep cs = cs.splitOn sep := by
  induction cs with
  | nil => rfl
  | cons c cs ih =>
    rw [List.splitOn_eq_splitOnP, List.splitOnP_cons_eq_if_modifyHead, ← List.splitOn_eq_splitOnP, ← ih]
    by_cases h : c = sep
    · rw [splitOnChar, if_pos h, if_pos (beq_iff_eq.mpr h)]
    · obtain ⟨piece, pieces, hcs, hcons⟩ := splitOnChar_cons h cs
      rw [hcons, hcs, if_neg (mt beq_iff_eq.mp h)]
      rfl

theorem not_mem_splitOnChar (sep : Char) (cs : List Char) : ∀ piece ∈ splitOnChar sep cs, sep ∉ piece := by
  induction cs with
  | nil => simp [splitOnChar]
  | cons c cs ih =>
    by_cases h : c = sep
    · rw [splitOnChar, if_pos h]
      exact List.forall_mem_cons.mpr ⟨List.not_mem_nil, ih⟩
    · obtain ⟨piece, pieces, hcs, hcons⟩ := splitOnChar_cons h cs
      rw [hcs] at ih
      obtain ⟨hpiece, hpieces⟩ := List.forall_mem_cons.mp ih
      rw [hcons]
      refine List.forall_mem_cons.mpr ⟨?_, hpieces⟩
      rw [List.mem_cons, not_or]
      exact ⟨Ne.symm h, hpiece⟩

end Text

namespace Path

/-- An absolute path whose names are what entries can be called. -/
structure Canonical (p : Path) : Prop where
  root : p.root = "/"
  names : ∀ n ∈ p.names, Plain n

variable {p : Path}

theorem Canonical.toList_toString (h : p.Canonical) :
    p.toString.toList = '/' :: ['/'].intercalate (p.names.map String.toList) := by
  have hroot : ¬ (p.root = "" ∧ p.names = []) := fun hempty => absurd (h.root.symm.trans hempty.1) (by decide)
  rw [toString, if_neg hroot, h.root, String.toList_append, String.toList_intercalate]
  rfl

theorem namesOf_intercalate {names : List String} (h : ∀ n ∈ names, Plain n) :
    namesOf ('/' :: ['/'].intercalate (names.map String.toList)) = names := by
  have hkept : ∀ n ∈ names.map String.toList, decide (n ≠ [] ∧ n ≠ ['.']) = true := by
    intro cs hcs
    obtain ⟨n, hn, rfl⟩ := List.mem_map.mp hcs
    have hempty : n.toList ≠ "".toList := mt String.toList_inj.mp (h n hn).nonempty
    have hpoint : n.toList ≠ ".".toList := mt String.toList_inj.mp (h n hn).here
    exact decide_eq_true ⟨hempty, hpoint⟩
  have hslash : ∀ n ∈ names.map String.toList, '/' ∉ n := by
    intro cs hcs
    obtain ⟨n, hn, rfl⟩ := List.mem_map.mp hcs
    exact (h n hn).slash
  rw [namesOf, Text.splitOnChar, if_pos rfl, Text.splitOnChar_eq_splitOn]
  by_cases hnil : names = []
  · subst hnil
    rfl
  · rw [List.splitOn_intercalate _ hslash (by simpa using hnil), List.filter_cons_of_neg (by simp),
      List.filter_eq_self.mpr hkept, List.map_map]
    simp

/-- A canonical path is what its text is read as. -/
theorem Canonical.ofString_toString (h : p.Canonical) : ofString p.toString = p := by
  obtain ⟨root, names⟩ := p
  obtain rfl : root = "/" := h.root
  -- a second slash would make a root of its own
  have hslashes : ('/' :: ['/'].intercalate (names.map String.toList)).takeWhile (· == '/') = ['/'] := by
    rw [List.takeWhile_cons_of_pos (by rfl)]
    cases names with
    | nil => rfl
    | cons n names =>
      obtain ⟨hn, -⟩ := List.forall_mem_cons.mp h.names
      have hempty : n.toList ≠ "".toList := mt String.toList_inj.mp hn.nonempty
      obtain ⟨c, cs, hcs⟩ := List.exists_cons_of_ne_nil hempty
      have hc : c ≠ '/' := fun heq => hn.slash (hcs ▸ heq ▸ List.mem_cons_self)
      have hhead : ∃ rest, ['/'].intercalate ((n :: names).map String.toList) = c :: rest := by
        rw [List.map_cons, hcs]
        cases names <;> exact ⟨_, rfl⟩
      obtain ⟨rest, hrest⟩ := hhead
      rw [hrest, List.takeWhile_cons_of_neg (by simpa using hc)]
  rw [ofString, h.toList_toString, hslashes, namesOf_intercalate h.names]
  rfl

theorem mem_namesOf {cs : List Char} {n : String} (h : n ∈ namesOf cs) :
    n ≠ "" ∧ n ≠ "." ∧ '/' ∉ n.toList := by
  obtain ⟨piece, hpiece, rfl⟩ := List.mem_map.mp h
  obtain ⟨hpiece, hkept⟩ := List.mem_filter.mp hpiece
  obtain ⟨hempty, hpoint⟩ := of_decide_eq_true hkept
  refine ⟨fun heq => hempty ?_, fun heq => hpoint ?_, ?_⟩
  · rw [← String.toList_ofList (l := piece), heq]
    rfl
  · rw [← String.toList_ofList (l := piece), heq]
    rfl
  · rw [String.toList_ofList]
    exact Text.not_mem_splitOnChar '/' cs piece hpiece

end Path

namespace Files

variable {fs : Files}

/-- However far links lead, no name that goes up is left. -/
theorem settle_not_up {links : Nat} {seen : List (List String)} {again : Option (List String)}
    {place rest stop : List String} (hplace : ".." ∉ place)
    (h : fs.settle links seen again place rest = .ok stop) : ".." ∉ stop := by
  fun_induction fs.settle links seen again place rest with
  | case1 =>
    cases h
    exact hplace
  | case2 links seen again place rest ih => exact ih (fun hup => hplace (List.dropLast_subset _ hup)) h
  | case3 => cases h
  | case4 seen again place n rest named target here later links folder more hlinked ih =>
    refine ih (fun hup => ?_) h
    obtain rfl : (if target.isAbsolute then [] else place) = folder := congrArg Prod.fst hlinked
    split at hup
    · exact List.not_mem_nil hup
    · exact hplace hup
  | case5 links seen again place n rest named here ih =>
    refine ih (fun hup => ?_) h
    rcases List.mem_append.mp hup with hup | hup
    · exact hplace hup
    · exact named (List.mem_singleton.mp hup).symm

/-- A path that resolves to itself is canonical, whatever text it was given by. -/
theorem canonical_of_resolved {s : String}
    (h : fs.resolve (Path.ofString s) = .ok (Path.ofString s)) : (Path.ofString s).Canonical := by
  rw [resolve] at h
  split at h
  · cases h
  next hnull =>
  cases hsettle : fs.settle maxLinks [] none [] (fs.absolute (Path.ofString s)) with
  | error names =>
    rw [hsettle] at h
    cases h
  | ok names =>
    rw [hsettle] at h
    have hpath : Path.absolute names = Path.ofString s := Except.ok.inj h
    have hnames : names = Path.namesOf s.toList := congrArg Path.names hpath
    have hup := settle_not_up List.not_mem_nil hsettle
    refine ⟨(congrArg Path.root hpath).symm, fun n hn => ?_⟩
    obtain ⟨hempty, hpoint, hslash⟩ := Path.mem_namesOf hn
    refine ⟨hempty, hpoint, ?_, hslash, ?_⟩
    · rintro rfl
      exact hup (hnames ▸ hn)
    · simpa using List.any_eq_false.mp (Bool.eq_false_iff.mpr hnull) n hn

end Files

end Callees

import Mathlib.Data.List.Basic
import Callees.Proofs.FileTree

namespace Callees.Path

variable {base names rest : List String} {folder : Path}

theorem dropPrefix?_eq_some : dropPrefix? base names = some rest ↔ names = base ++ rest := by
  induction base generalizing names with
  | nil => exact Option.some_inj
  | cons b bs ih =>
    cases names with
    | nil => exact iff_of_false nofun nofun
    | cons n ns =>
      rw [dropPrefix?, List.cons_append, List.cons.injEq]
      split
      · next heq => rw [ih, and_iff_right heq.symm]
      · next hne => exact iff_of_false nofun fun h => hne h.1.symm

theorem join_along (folder : Path) (names : List String) :
    folder.join (along names) = ⟨folder.root, folder.names ++ names⟩ := rfl

theorem relativeTo?_join (folder : Path) (names : List String) :
    (folder.join (along names)).relativeTo? folder = some (along names) := by
  rw [join_along, relativeTo?, if_pos rfl, dropPrefix?_eq_some.mpr rfl, Option.map_some, along]

theorem name_join (hne : names ≠ []) : (folder.join (along names)).name = (along names).name := by
  rw [join_along, along, name, name, List.getLast?_append_of_ne_nil _ hne]

theorem extension_join (hne : names ≠ []) :
    (folder.join (along names)).extension = (along names).extension := by
  rw [extension, name_join hne, extension]

theorem toString_along (hne : names ≠ []) : (along names).toString = "/".intercalate names := by
  rw [toString, along, if_neg fun h => hne h.2, String.empty_append]

/-- What the texts of the paths below a folder begin with. -/
def lead (folder : Path) : String :=
  folder.root ++ if folder.names = [] then "" else "/".intercalate folder.names ++ "/"

theorem toString_join (hne : names ≠ []) :
    (folder.join (along names)).toString = folder.lead ++ (along names).toString := by
  have hall : folder.names ++ names ≠ [] := List.append_ne_nil_of_right_ne_nil _ hne
  rw [toString_along hne, join_along, toString, if_neg fun h => hall h.2, lead]
  split
  · next hnil => rw [hnil, List.nil_append, String.append_empty]
  · next hfolder =>
    simp only [String.intercalate_append_of_ne_nil hfolder hne, String.append_assoc]

theorem append_lt_append_iff {s t u : String} : s ++ t < s ++ u ↔ t < u := by
  simp only [String.lt_iff, String.toList_append]
  induction s.toList with
  | nil => rfl
  | cons c cs ih =>
    rw [List.cons_append, List.cons_append, List.cons_lt_cons_iff, ih]
    simp

theorem join_lt_iff {names' : List String} (hne : names ≠ []) (hne' : names' ≠ []) :
    (folder.join (along names)).toString < (folder.join (along names')).toString ↔
      (along names).toString < (along names').toString := by
  rw [toString_join hne, toString_join hne', append_lt_append_iff]

/-- The text of a path tells its names. -/
theorem along_injective {names' : List String} (hne : names ≠ []) (hne' : names' ≠ [])
    (hplain : ∀ n ∈ names, Plain n) (hplain' : ∀ n ∈ names', Plain n)
    (h : (along names).toString = (along names').toString) : names = names' := by
  have hsplit {names : List String} (hne : names ≠ []) (hplain : ∀ n ∈ names, Plain n) :
      (("/".intercalate names).toList.splitOn '/').map String.ofList = names := by
    rw [String.toList_intercalate, show "/".toList = ['/'] from rfl, List.splitOn_intercalate]
    · simp
    · simpa using fun n hn => (hplain n hn).slash
    · simpa using hne
  rw [toString_along hne, toString_along hne'] at h
  rw [← hsplit hne hplain, h, hsplit hne' hplain']

end Callees.Path

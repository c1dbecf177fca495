import Callees.Proofs.OutlineOrder
import Callees.Proofs.SourceFiles
import Callees.Workspace

namespace Callees

namespace SymbolIndex

theorem lookup_insert (info : SymbolInfo) (name : String) (groups : List (String × List SymbolInfo)) :
    (insert info groups).lookup name =
      if info.name = name then some ((groups.lookup name).getD [] ++ [info])
      else groups.lookup name := by
  induction groups with
  | nil =>
    by_cases heq : info.name = name
    · simp [insert, heq]
    · simp [insert, heq, Ne.symm heq]
  | cons entry groups ih =>
    obtain ⟨key, infos⟩ := entry
    rw [insert]
    split
    · next hkey =>
      -- this is the group of the symbol's name
      by_cases heq : key = name
      · simp [← hkey, heq]
      · simp [← hkey, heq, List.lookup_cons, beq_false_of_ne (Ne.symm heq)]
    · next hkey =>
      by_cases heq : key = name
      · subst heq
        simp [Ne.symm hkey]
      · simp [List.lookup_cons, beq_false_of_ne (Ne.symm heq), ih]

/-- The group of a name has its symbols in the order in which they came, as often as they came. -/
theorem find_group (infos : List SymbolInfo) (count : Nat) (name : String) :
    find ⟨group infos, count⟩ name = infos.filter fun info => info.name = name := by
  have hfold (groups : List (String × List SymbolInfo)) :
      ((infos.foldl (fun groups info => insert info groups) groups).lookup name).getD [] =
        (groups.lookup name).getD [] ++ infos.filter fun info => info.name = name := by
    induction infos generalizing groups with
    | nil => rw [List.foldl_nil, List.filter_nil, List.append_nil]
    | cons info infos ih =>
      rw [List.foldl_cons, ih, lookup_insert]
      by_cases heq : info.name = name
      · simp [heq]
      · simp [heq]
  rw [find, group, hfold, List.lookup_nil, Option.getD_none, List.nil_append]

end SymbolIndex

namespace Workspace

open Callees.Path (along)

variable {w : Workspace} {fs : Files} {o : ScanOptions} {ignored : Path → Bool}
  {names : List String}

/-- The text of a file with these bytes. -/
def textOf (bytes : List UInt8) : String := String.ofList (Text.unifyBreaks (Text.decode bytes))

/-- The document at a path that leads to a file. -/
theorem documentAt_located {p : Path} {place : List String} {bytes : List UInt8} (hfs : fs.IsTree)
    (hplace : fs.locatePath true p = .ok place) (hfile : fs.entry? place = some (.file bytes)) :
    documentAt fs p = .ok ⟨Uri.ofPath (.absolute place), textOf bytes, Language.ofPath? p, 0⟩ := by
  have hread : fs.readText p = .ok (Text.unifyBreaks (Text.decode bytes)) := by
    rw [Files.readText, Files.readBytes, hplace, Files.refusal]
    simp only [bind, Except.bind, hfile]
    rfl
  rw [documentAt, hread, hfs.resolve_eq hplace]
  rfl

end Workspace

end Callees

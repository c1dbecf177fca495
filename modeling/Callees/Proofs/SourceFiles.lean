import Mathlib.Data.List.Perm.Basic
import Mathlib.Data.List.Sort
import Mathlib.Data.Set.List
import Callees.Files.Scan
import Callees.Proofs.PathText

namespace Callees

theorem bind_eq_ok {α β ε : Type} {x : Except ε α} {f : α → Except ε β} {b : β} :
    x >>= f = .ok b ↔ ∃ a, x = .ok a ∧ f a = .ok b := by
  cases x with
  | error e => exact iff_of_false nofun fun ⟨_, h, _⟩ => nomatch h
  | ok a => exact ⟨fun h => ⟨a, rfl, h⟩, fun ⟨_, hok, h⟩ => Except.ok.inj hok ▸ h⟩

theorem map_eq_ok {α β ε : Type} {x : Except ε α} {f : α → β} {b : β} :
    x.map f = .ok b ↔ ∃ a, x = .ok a ∧ f a = b := by
  cases x <;> simp [Except.map]

/-- What a mapped list holds comes from the list. -/
theorem mem_of_mapM {α β ε : Type} {f : α → Except ε β} {l : List α} {results : List β} {b : β}
    (h : l.mapM f = .ok results) (hb : b ∈ results) : ∃ a ∈ l, f a = .ok b := by
  induction l generalizing results with
  | nil =>
    cases h
    exact absurd hb List.not_mem_nil
  | cons a l ih =>
    rw [List.mapM_cons] at h
    obtain ⟨first, hfirst, h⟩ := bind_eq_ok.mp h
    obtain ⟨rest, hrest, h⟩ := bind_eq_ok.mp h
    cases h
    rcases List.mem_cons.mp hb with rfl | hb
    · exact ⟨a, List.mem_cons_self, hfirst⟩
    · obtain ⟨origin, horigin, hok⟩ := ih hrest hb
      exact ⟨origin, List.mem_cons_of_mem _ horigin, hok⟩

theorem ok_of_mem_filterAuxM {α ε : Type} {f : α → Except ε Bool} {l acc kept : List α}
    (h : l.filterAuxM f acc = .ok kept) (hacc : ∀ a ∈ acc, f a = .ok true) : ∀ a ∈ kept, f a = .ok true := by
  induction l generalizing acc with
  | nil =>
    cases h
    exact hacc
  | cons x l ih =>
    obtain ⟨b, hb, h⟩ := bind_eq_ok.mp h
    refine ih h ?_
    cases b with
    | false => exact hacc
    | true => exact List.forall_mem_cons.mpr ⟨hb, hacc⟩

/-- A filter that did not fail has kept none but what it accepts. -/
theorem ok_of_mem_filterM {α ε : Type} {f : α → Except ε Bool} {l kept : List α} {a : α}
    (h : l.filterM f = .ok kept) (ha : a ∈ kept) : f a = .ok true := by
  obtain ⟨all, hall, h⟩ := bind_eq_ok.mp h
  cases h
  exact ok_of_mem_filterAuxM hall nofun a (List.mem_reverse.mp ha)

/-- A filter that never fails keeps the elements that it accepts. -/
theorem filterM_kept {α ε : Type} {f : α → Except ε Bool} {l : List α}
    (h : ∀ a ∈ l, ∃ b, f a = .ok b) :
    ∃ kept : List α, l.filterM f = .ok kept ∧ kept.Sublist l ∧ ∀ a ∈ l, a ∈ kept ↔ f a = .ok true := by
  have haux (acc : List α) : ∃ kept : List α, l.filterAuxM f acc = .ok (kept.reverse ++ acc) ∧
      kept.Sublist l ∧ ∀ a ∈ l, a ∈ kept ↔ f a = .ok true := by
    induction l generalizing acc with
    | nil => exact ⟨[], rfl, .slnil, nofun⟩
    | cons a l ih =>
      obtain ⟨⟨b, hb⟩, hl⟩ := List.forall_mem_cons.mp h
      obtain ⟨kept, hkept, hsub, hmem⟩ := ih hl (cond b (a :: acc) acc)
      have hrun : (a :: l).filterAuxM f acc = .ok (kept.reverse ++ cond b (a :: acc) acc) := by
        rw [List.filterAuxM, hb, ← hkept]
        rfl
      cases b with
      | false =>
        refine ⟨kept, hrun, hsub.cons a, List.forall_mem_cons.mpr ⟨?_, hmem⟩⟩
        exact ⟨fun ha => (hmem a (hsub.subset ha)).mp ha, fun ha => by cases hb.symm.trans ha⟩
      | true =>
        refine ⟨a :: kept, ?_, hsub.cons_cons a, List.forall_mem_cons.mpr ⟨?_, fun x hx => ?_⟩⟩
        · rw [hrun, List.reverse_cons, List.append_assoc]
          rfl
        · exact iff_of_true List.mem_cons_self hb
        · rw [List.mem_cons, hmem x hx]
          exact ⟨fun hor => hor.elim (fun heq => heq ▸ hb) id, .inr⟩
  obtain ⟨kept, haux, hsub, hmem⟩ := haux []
  refine ⟨kept, ?_, hsub, hmem⟩
  rw [List.filterM, haux, List.append_nil]
  exact congrArg Except.ok (List.reverse_reverse kept)

namespace Scan

open Callees.Path (along)

variable {fs : Files} {folder : Path} {o : ScanOptions} {ignored : Path → Bool}
  {place names : List String} {e : Entry}

/-- Whether the filters let a file below a folder through. -/
structure Wanted (o : ScanOptions) (ignored : Path → Bool) (folder : Path) (names : List String) :
    Prop where
  extension : (along names).extension ∈ o.extensions
  folders : ∀ n ∈ names.dropLast, n ∉ skippedFolders
  kept : ignored (folder.join (along names)) = false
  included : o.included = [] ∨ ∃ glob ∈ o.included, Glob.isMatch glob (along names).toString = true
  excluded : ∀ glob ∈ o.excluded, Glob.isMatch glob (along names).toString = false

theorem wanted_iff : Wanted o ignored folder names ↔ (along names).extension ∈ o.extensions ∧
    (!(along names).names.dropLast.any skippedFolders.contains && !ignored (folder.join (along names)) &&
      (o.included.isEmpty || o.included.any (Glob.isMatch · (along names).toString)) &&
      !o.excluded.any (Glob.isMatch · (along names).toString)) = true := by
  simp only [Bool.and_eq_true, Bool.or_eq_true, Bool.not_eq_true', List.any_eq_false, List.any_eq_true,
    List.isEmpty_iff, List.contains_iff_mem, Bool.not_eq_true]
  constructor
  · intro h
    exact ⟨h.extension, ⟨⟨h.folders, h.kept⟩, h.included⟩, h.excluded⟩
  · rintro ⟨hextension, ⟨⟨hfolders, hkept⟩, hincluded⟩, hexcluded⟩
    exact ⟨hextension, hfolders, hkept, hincluded, hexcluded⟩

/-- A regular file below a folder, reached by no links from there, that the filters let through. -/
structure IsSource (fs : Files) (folder : Path) (o : ScanOptions) (ignored : Path → Bool)
    (names : List String) : Prop where
  below : names ≠ []
  file : ∃ place bytes, fs.locatePath true folder = .ok place ∧
    fs.entry? (place ++ names) = some (.file bytes)
  wanted : Wanted o ignored folder names

/-- What the source files of a folder have to be. -/
structure Sources (fs : Files) (folder : Path) (o : ScanOptions) (ignored : Path → Bool)
    (files : List (List String)) : Prop where
  increasing : files.Pairwise fun names names' => (along names).toString < (along names').toString
  complete : ∀ names, names ∈ files ↔ IsSource fs folder o ignored names

section Below

variable (hfs : fs.IsTree) (hfolder : fs.locatePath true folder = .ok place) (hne : names ≠ [])
  (he : (place ++ names, e) ∈ fs.entries)
include hfs hfolder hne he

theorem isLink_below : fs.isLink (folder.join (along names)) = true ↔ ∃ target, e = .link target := by
  have hplace := hfs.locatePath_join false hfolder hne he nofun
  simp only [Files.isLink, Files.entryAt?, hplace, hfs.entry?_of_mem he]
  cases e <;> simp

theorem isFile_below (hlink : ∀ target, e ≠ .link target) :
    fs.isFile (folder.join (along names)) = true ↔ ∃ bytes, e = .file bytes := by
  have hplace := hfs.locatePath_join true hfolder hne he fun _ => hlink
  simp only [Files.isFile, Files.entryAt?, hplace, hfs.entry?_of_mem he]
  cases e <;> simp

theorem isWithin_below (hlink : ∀ target, e ≠ .link target) :
    isWithin fs (folder.join (along names)) folder = .ok true := by
  have hplace := hfs.locatePath_join true hfolder hne he fun _ => hlink
  have hrelative : ((Path.absolute (place ++ names)).relativeTo? (Path.absolute place)).isSome = true := by
    rw [Path.absolute, Path.absolute, Path.relativeTo?, if_pos rfl, Path.dropPrefix?_eq_some.mpr rfl]
    rfl
  rw [isWithin, hfs.resolve_eq hfolder, hfs.resolve_eq hplace, ← hrelative]
  rfl

/-- The filters see the path of a regular file from the folder, and nothing else is let through. -/
theorem accepts_below (o : ScanOptions) (ignored : Path → Bool) :
    ∃ b, accepts fs folder o ignored (folder.join (along names)) = .ok b ∧
      (b = true ↔ (∃ bytes, e = .file bytes) ∧ Wanted o ignored folder names) := by
  have hlink := isLink_below hfs hfolder hne he
  cases e with
  | link target =>
    refine ⟨false, ?_, by simp⟩
    rw [accepts, hlink.mpr ⟨target, rfl⟩, Bool.or_true, if_pos rfl]
  | folder =>
    have hfile : fs.isFile (folder.join (along names)) = false :=
      Bool.eq_false_iff.mpr (mt (isFile_below hfs hfolder hne he nofun).mp (by simp))
    refine ⟨false, ?_, by simp⟩
    rw [accepts, hfile, Bool.not_false, Bool.true_or, if_pos rfl]
  | file bytes =>
    have hfile := (isFile_below hfs hfolder hne he nofun).mpr ⟨bytes, rfl⟩
    have hlinkless : fs.isLink (folder.join (along names)) = false :=
      Bool.eq_false_iff.mpr (mt hlink.mp (by simp))
    have hwithin := isWithin_below hfs hfolder hne he nofun
    simp only [accepts, hfile, hlinkless, Path.extension_join hne, hwithin, Path.relativeTo?_join,
      bind, Except.bind, Bool.not_true, Bool.or_false, Bool.false_eq_true, if_false]
    by_cases hext : (along names).extension ∈ o.extensions
    · refine ⟨_, if_neg (by simpa using hext), ?_⟩
      rw [wanted_iff, and_iff_right hext, and_iff_right ⟨bytes, rfl⟩]
    · exact ⟨false, if_pos (by simpa using hext),
        iff_of_false Bool.false_ne_true fun h => hext h.2.extension⟩

end Below

/-- The names that lead from a folder to a place below it. -/
def namesTo? (folder place : List String) : Option (List String) :=
  match Path.dropPrefix? folder place with
  | some (n :: names) => some (n :: names)
  | _ => none

theorem namesTo?_eq_some {folder : List String} :
    namesTo? folder place = some names ↔ names ≠ [] ∧ place = folder ++ names := by
  rw [← Path.dropPrefix?_eq_some, namesTo?]
  constructor
  · intro h
    split at h
    · next n rest hdrop =>
      cases h
      exact ⟨List.cons_ne_nil n rest, hdrop⟩
    · cases h
  · rintro ⟨hne, hdrop⟩
    obtain ⟨n, rest, rfl⟩ := List.exists_cons_of_ne_nil hne
    rw [hdrop]

theorem under_eq (fs : Files) (place : List String) :
    fs.under place = fs.entries.filterMap fun e => namesTo? place e.1 := rfl

theorem mem_under : names ∈ fs.under place ↔ names ≠ [] ∧ ∃ e, (place ++ names, e) ∈ fs.entries := by
  simp only [under_eq, List.mem_filterMap, namesTo?_eq_some]
  constructor
  · rintro ⟨⟨_, e⟩, he, hne, rfl⟩
    exact ⟨hne, e, he⟩
  · rintro ⟨hne, e, he⟩
    exact ⟨_, he, hne, rfl⟩

theorem under_nodup (hfs : fs.IsTree) (place : List String) : (fs.under place).Nodup := by
  rw [under_eq]
  refine List.pairwise_filterMap.mpr ((List.pairwise_map.mp hfs.distinct).imp ?_)
  intro e e' hne names hnames names' hnames' heq
  rw [namesTo?_eq_some] at hnames hnames'
  exact hne (hnames.2.trans (heq ▸ hnames'.2.symm))

theorem insertByName_perm (p : Path) (ps : List Path) : (insertByName p ps).Perm (p :: ps) := by
  induction ps with
  | nil => exact .refl _
  | cons q qs ih =>
    rw [insertByName]
    split
    · exact .refl _
    · exact (ih.cons q).trans (.swap p q qs)

theorem sortByName_perm (ps : List Path) : (sortByName ps).Perm ps := by
  induction ps with
  | nil => exact .refl _
  | cons p ps ih => exact (insertByName_perm p _).trans (ih.cons p)

theorem insertByName_increasing {p : Path} {ps : List Path} (hp : ∀ q ∈ ps, p.toString ≠ q.toString)
    (hps : ps.Pairwise fun q q' => q.toString < q'.toString) :
    (insertByName p ps).Pairwise fun q q' => q.toString < q'.toString := by
  induction ps with
  | nil => exact List.pairwise_singleton _ _
  | cons q qs ih =>
    obtain ⟨hq, hqs⟩ := List.pairwise_cons.mp hps
    obtain ⟨hne, hlater⟩ := List.forall_mem_cons.mp hp
    rw [insertByName]
    split
    · next hlt =>
      exact List.pairwise_cons.mpr ⟨List.forall_mem_cons.mpr ⟨hlt, fun q' hq' =>
        String.lt_trans hlt (hq q' hq')⟩, hps⟩
    · next hge =>
      have hlt : q.toString < p.toString :=
        (Std.le_iff_lt_or_eq.mp (String.not_lt.mp hge)).resolve_right hne.symm
      refine List.pairwise_cons.mpr ⟨fun q' hq' => ?_, ih hlater hqs⟩
      rcases List.mem_cons.mp ((insertByName_perm p qs).mem_iff.mp hq') with rfl | hq'
      · exact hlt
      · exact hq q' hq'

theorem sortByName_increasing {ps : List Path} (hps : ps.Pairwise fun q q' => q.toString ≠ q'.toString) :
    (sortByName ps).Pairwise fun q q' => q.toString < q'.toString := by
  induction ps with
  | nil => exact .nil
  | cons p ps ih =>
    obtain ⟨hp, hps⟩ := List.pairwise_cons.mp hps
    exact insertByName_increasing (fun q hq => hp q ((sortByName_perm ps).mem_iff.mp hq)) (ih hps)

theorem IsSource.plain (h : IsSource fs folder o ignored names) (hfs : fs.IsTree) :
    ∀ n ∈ names, Path.Plain n := by
  obtain ⟨place, bytes, -, he⟩ := h.file
  have hne : place ++ names ≠ [] := List.append_ne_nil_of_right_ne_nil _ h.below
  exact fun n hn => hfs.plain _ (Files.mem_of_entry_eq hne he) n (List.mem_append_right _ hn)

/-- Accepting never fails below a folder, and it tells the sources. -/
theorem accepts_source (hfs : fs.IsTree) (hfolder : fs.locatePath true folder = .ok place)
    (hnames : names ∈ fs.under place) (o : ScanOptions) (ignored : Path → Bool) :
    (∃ b, accepts fs folder o ignored (folder.join (along names)) = .ok b) ∧
      (accepts fs folder o ignored (folder.join (along names)) = .ok true ↔
        IsSource fs folder o ignored names) := by
  obtain ⟨hne, e, he⟩ := mem_under.mp hnames
  obtain ⟨b, hb, hiff⟩ := accepts_below hfs hfolder hne he o ignored
  rw [hb, Except.ok.injEq, hiff]
  refine ⟨⟨b, rfl⟩, ?_, fun h => ⟨?_, h.wanted⟩⟩
  · rintro ⟨⟨bytes, rfl⟩, hwanted⟩
    exact ⟨hne, ⟨place, bytes, hfolder, hfs.entry?_of_mem he⟩, hwanted⟩
  · obtain ⟨place', bytes, hplace, hfile⟩ := h.file
    cases hfolder.symm.trans hplace
    exact ⟨bytes, Option.some.inj ((hfs.entry?_of_mem he).symm.trans hfile)⟩

theorem join_injective (folder : Path) : Function.Injective fun names => folder.join (along names) :=
  fun _ _ h => List.append_cancel_left (congrArg Path.names h)

/-- The walk comes to every entry below the folder, and the filters keep the sources. -/
theorem walk_kept (hfs : fs.IsTree) (folder : Path) (o : ScanOptions) (ignored : Path → Bool) :
    ∃ kept : List (List String), (walk fs folder).filterM (accepts fs folder o ignored) =
        .ok (kept.map fun names => folder.join (along names)) ∧
      kept.Nodup ∧ ∀ names, names ∈ kept ↔ IsSource fs folder o ignored names := by
  cases hfolder : fs.locatePath true folder with
  | error r =>
    refine ⟨[], ?_, .nil, fun names => iff_of_false List.not_mem_nil fun h => ?_⟩
    · rw [walk, hfolder]
      rfl
    · obtain ⟨place, bytes, hplace, -⟩ := h.file
      cases hfolder.symm.trans hplace
  | ok place =>
    have hwalk : walk fs folder = (fs.under place).map fun names => folder.join (along names) := by
      rw [walk, hfolder]
      rfl
    obtain ⟨found, hfound, hsub, hmem⟩ := filterM_kept (l := walk fs folder) fun p hp => by
      rw [hwalk] at hp
      obtain ⟨names, hnames, rfl⟩ := List.mem_map.mp hp
      exact (accepts_source hfs hfolder hnames o ignored).1
    rw [hwalk] at hsub hmem
    obtain ⟨kept, hkept, rfl⟩ := List.sublist_map_iff.mp hsub
    refine ⟨kept, hfound, (under_nodup hfs place).sublist hkept, fun names => ?_⟩
    have hjoin (hnames : names ∈ fs.under place) : names ∈ kept ↔ IsSource fs folder o ignored names := by
      rw [← (accepts_source hfs hfolder hnames o ignored).2, ← hmem _ (List.mem_map_of_mem hnames),
        List.mem_map_of_injective (join_injective folder)]
    refine ⟨fun h => (hjoin (hkept.subset h)).mp h, fun h => (hjoin ?_).mpr h⟩
    obtain ⟨place', bytes, hplace, hfile⟩ := h.file
    cases hfolder.symm.trans hplace
    have hne : place ++ names ≠ [] := List.append_ne_nil_of_right_ne_nil _ h.below
    exact mem_under.mpr ⟨h.below, _, Files.mem_of_entry_eq hne hfile⟩

/-- What the ignore files of a folder say. -/
def ignoreFiles (fs : Files) (folder : Path) (nested : Bool) : Except Failure (List IgnoreFile) := do
  (← ignorePaths fs folder nested).mapM (readIgnoreFile fs)

end Scan

/-- The options with their extensions in the form that those of files have. -/
def ScanOptions.normal (o : ScanOptions) : ScanOptions :=
  { o with extensions := o.extensions.map Scan.normalExtension }

namespace Scan

open Callees.Path (along)

variable {fs : Files} {folder : Path} {o : ScanOptions} {rules : List IgnoreFile}

theorem Sources.unique {ignored : Path → Bool} {files files' : List (List String)}
    (h : Sources fs folder o ignored files) (h' : Sources fs folder o ignored files') :
    files = files' := by
  have : Std.Irrefl fun names names' : List String =>
      (along names).toString < (along names').toString := ⟨fun _ => String.lt_irrefl _⟩
  have : Std.Antisymm fun names names' : List String =>
      (along names).toString < (along names').toString :=
    ⟨fun _ _ hlt hlt' => absurd hlt' (String.lt_asymm hlt)⟩
  exact h.increasing.eq_of_mem_iff h'.increasing fun names =>
    (h.complete names).trans (h'.complete names).symm

theorem sourceFiles_eq (hrules : ignoreFiles fs folder o.nestedIgnores = .ok rules) :
    sourceFiles fs folder o =
      ((walk fs folder).filterM (accepts fs folder o.normal (ignoredBy rules))).map sortByName := by
  rw [sourceFiles]
  rw [ignoreFiles] at hrules
  cases hpaths : ignorePaths fs folder o.nestedIgnores with
  | error f =>
    rw [hpaths] at hrules
    cases hrules
  | ok paths =>
    simp only [hpaths, bind, Except.bind] at hrules ⊢
    rw [hrules]
    rfl

/-- None but files with one of the extensions are found. -/
theorem extension_of_mem {paths : List Path} {p : Path} (h : sourceFiles fs folder o = .ok paths)
    (hp : p ∈ paths) : p.extension ∈ o.normal.extensions := by
  obtain ⟨found, -, h⟩ := bind_eq_ok.mp h
  obtain ⟨rules, -, h⟩ := bind_eq_ok.mp h
  obtain ⟨kept, hkept, h⟩ := bind_eq_ok.mp h
  cases h
  have haccepted := ok_of_mem_filterM hkept ((sortByName_perm kept).mem_iff.mp hp)
  rw [accepts] at haccepted
  split at haccepted
  · cases haccepted
  · split at haccepted
    · cases haccepted
    · next hextension =>
      rw [Bool.not_eq_true, Bool.not_eq_false'] at hextension
      exact List.contains_iff_mem.mp hextension

/-- Source files that could be had come from ignore files that could be read. -/
theorem ignoreFiles_of_sourceFiles {paths : List Path} (h : sourceFiles fs folder o = .ok paths) :
    ∃ rules, ignoreFiles fs folder o.nestedIgnores = .ok rules := by
  obtain ⟨found, hfound, h⟩ := bind_eq_ok.mp h
  obtain ⟨rules, hrules, -⟩ := bind_eq_ok.mp h
  exact ⟨rules, bind_eq_ok.mpr ⟨found, hfound, hrules⟩⟩

/-- The files that are kept, in the order of their texts. -/
theorem sorted_sources {ignored : Path → Bool} {kept : List (List String)} (hfs : fs.IsTree)
    (hnodup : kept.Nodup) (hmem : ∀ names, names ∈ kept ↔ IsSource fs folder o ignored names) :
    ∃ files, sortByName (kept.map fun names => folder.join (along names)) =
        files.map (fun names => folder.join (along names)) ∧
      Sources fs folder o ignored files := by
  have hperm := sortByName_perm (kept.map fun names => folder.join (along names))
  obtain ⟨files, hfiles⟩ : sortByName (kept.map fun names => folder.join (along names)) ∈
      Set.range (List.map fun names => folder.join (along names)) := by
    rw [Set.range_list_map]
    intro p hp
    obtain ⟨names, -, rfl⟩ := List.mem_map.mp (hperm.mem_iff.mp hp)
    exact ⟨names, rfl⟩
  rw [← hfiles, List.map_perm_map_iff (join_injective folder)] at hperm
  have hsource (names : List String) (h : names ∈ files) : IsSource fs folder o ignored names :=
    (hmem names).mp (hperm.mem_iff.mp h)
  -- no two of them have the same text
  have hdistinct : (kept.map fun names => folder.join (along names)).Pairwise
      fun p q => p.toString ≠ q.toString := by
    refine List.pairwise_map.mpr (hnodup.imp_of_mem fun {names names'} h h' hne heq => hne ?_)
    have hnames := (hmem names).mp h
    have hnames' := (hmem names').mp h'
    rw [Path.toString_join hnames.below, Path.toString_join hnames'.below] at heq
    exact Path.along_injective hnames.below hnames'.below (hnames.plain hfs) (hnames'.plain hfs)
      ((String.append_right_inj _).mp heq)
  have hsorted := sortByName_increasing hdistinct
  rw [← hfiles] at hsorted
  refine ⟨files, hfiles.symm, ?_, fun names => hperm.mem_iff.trans (hmem names)⟩
  refine (List.pairwise_map.mp hsorted).imp_of_mem fun {names names'} h h' hlt => ?_
  exact (Path.join_lt_iff (hsource names h).below (hsource names' h').below).mp hlt

/-- Once the ignore files are read, the source files can be had. -/
theorem sourceFiles_ok (hfs : fs.IsTree) (hrules : ignoreFiles fs folder o.nestedIgnores = .ok rules) :
    ∃ files, sourceFiles fs folder o = .ok (files.map fun names => folder.join (along names)) ∧
      Sources fs folder o.normal (ignoredBy rules) files := by
  obtain ⟨kept, hkept, hnodup, hmem⟩ := walk_kept hfs folder o.normal (ignoredBy rules)
  obtain ⟨files, hsorted, hsources⟩ := sorted_sources hfs hnodup hmem
  refine ⟨files, ?_, hsources⟩
  rw [sourceFiles_eq hrules, hkept, Except.map, hsorted]

/-- The order in which a file system lists its entries plays no part in what its sources are. -/
theorem Sources.perm {fs' : Files} {ignored : Path → Bool} {files : List (List String)}
    (h : Sources fs folder o ignored files) (hfs : fs.IsTree) (hcurrent : fs.current = fs'.current)
    (hperm : fs.entries.Perm fs'.entries) : Sources fs' folder o ignored files := by
  have hentry := hfs.entry?_perm hperm
  have hplace : fs.locatePath true folder = fs'.locatePath true folder := by
    rw [Files.locatePath, Files.locatePath, Files.absolute, Files.absolute, hcurrent]
    exact Files.locate_congr hentry ..
  refine ⟨h.increasing, fun names => (h.complete names).trans ⟨fun hs => ?_, fun hs => ?_⟩⟩
  · obtain ⟨place, bytes, hroot, hfile⟩ := hs.file
    exact ⟨hs.below, ⟨place, bytes, hplace ▸ hroot, hentry _ ▸ hfile⟩, hs.wanted⟩
  · obtain ⟨place, bytes, hroot, hfile⟩ := hs.file
    exact ⟨hs.below, ⟨place, bytes, hplace ▸ hroot, hentry _ ▸ hfile⟩, hs.wanted⟩

/-- Whatever order the walk has, the files come in the same one, if the same of them are ignored. -/
theorem sourceFiles_perm {fs' : Files} (hfs : fs.IsTree) (hcurrent : fs.current = fs'.current)
    (hperm : fs.entries.Perm fs'.entries)
    (hrules : ignoreFiles fs folder o.nestedIgnores = .ok rules)
    (hrules' : ignoreFiles fs' folder o.nestedIgnores = .ok rules) :
    sourceFiles fs folder o = sourceFiles fs' folder o := by
  obtain ⟨files, hfiles, hsources⟩ := sourceFiles_ok hfs hrules
  obtain ⟨files', hfiles', hsources'⟩ := sourceFiles_ok (hfs.perm hperm) hrules'
  rw [hfiles, hfiles', (hsources.perm hfs hcurrent hperm).unique hsources']

end Scan

end Callees

import Callees.Proofs.Addresses
import Callees.Proofs.IndexSnapshot
import Callees.Proofs.PathNames

namespace Callees

namespace Outline

mutual

theorem uri_of_mem_node (uri : String) : ∀ (container : Option String) (o : Outline),
    ∀ info ∈ flattenNode uri container o, info.uri = uri
  | container, node name kind range children => by
    rw [flattenNode]
    exact List.forall_mem_cons.mpr ⟨rfl, uri_of_mem_all uri (some name) children⟩

theorem uri_of_mem_all (uri : String) : ∀ (container : Option String) (os : List Outline),
    ∀ info ∈ flattenAll uri container os, info.uri = uri
  | container, [] => by
    rw [flattenAll]
    exact nofun
  | container, o :: os => by
    rw [flattenAll]
    exact List.forall_mem_append.mpr ⟨uri_of_mem_node uri container o, uri_of_mem_all uri container os⟩

end

end Outline

namespace Uri

variable {p q : Path}

/-- A canonical path is read off its address. -/
theorem toPath_ofPath (h : p.Canonical) : toPath (ofPath p) = .ok p := by
  have hhead : p.toString.toList.head? = some '/' := by rw [h.toList_toString, List.head?_cons]
  rw [ofPath, toPath_escaped hhead, String.ofList_toList, h.ofString_toString]

theorem ofPath_injective (hp : p.Canonical) (hq : q.Canonical) (h : ofPath p = ofPath q) : p = q := by
  have hread := toPath_ofPath hp
  rw [h, toPath_ofPath hq] at hread
  exact (Except.ok.inj hread).symm

end Uri

namespace Files

/-- A path, given by any text, that resolving leaves as it is. -/
def Resolved (fs : Files) (p : Path) : Prop := ∃ text, p = Path.ofString text ∧ fs.resolve p = .ok p

variable {fs : Files} {place : List String} {bytes : List UInt8}

theorem Resolved.canonical {p : Path} (h : fs.Resolved p) : p.Canonical := by
  obtain ⟨text, rfl, hresolve⟩ := h
  exact canonical_of_resolved hresolve

theorem file_below_root (hfile : fs.entry? place = some (.file bytes)) : place ≠ [] := by
  rintro rfl
  unfold entry? at hfile
  rw [if_pos rfl] at hfile
  cases hfile

namespace IsTree

variable (h : fs.IsTree) (hfile : fs.entry? place = some (.file bytes))
include h hfile

theorem locatePath_file : fs.locatePath true (.absolute place) = .ok place :=
  h.locate_names (file_below_root hfile) (mem_of_entry_eq (file_below_root hfile) hfile) nofun

theorem canonical_file : (Path.absolute place).Canonical :=
  ⟨rfl, h.plain _ (mem_of_entry_eq (file_below_root hfile) hfile)⟩

end IsTree

end Files

namespace Workspace

open Callees.Path (along)

variable {w : Workspace} {fs : Files} {place names : List String} {bytes : List UInt8} {p : Path}

/-- As long as a file is at this path, the address opens it as it is then. -/
def Opens (w : Workspace) (uri : String) (p : Path) : Prop :=
  ∀ (s : Session Disk) (bytes : List UInt8), s.host.files.IsTree →
    s.host.files.entry? p.names = some (.file bytes) →
    (w.openDocument uri).run s = (.ok ⟨uri, textOf bytes, Language.ofPath? p, 0⟩, s)

/-- A file lies at this path, and the address is its own. -/
structure Addressed (w : Workspace) (fs : Files) (p : Path) (uri : String) : Prop where
  address : (fs.resolve p).map Uri.ofPath = .ok uri
  file : ∃ bytes, fs.entry? p.names = some (.file bytes)
  opens : w.Opens uri p

/-- The address of a file below the root is accepted. -/
theorem opens_below (hroot : w.root = .absolute place) :
    w.Opens (Uri.ofPath (.absolute (place ++ names))) (.absolute (place ++ names)) := by
  intro s bytes hfs hfile
  change s.host.files.entry? (place ++ names) = some (.file bytes) at hfile
  have hread := Uri.toPath_ofPath (hfs.canonical_file hfile)
  have hplace := hfs.locatePath_file hfile
  have hbelow : (Path.absolute (place ++ names)).relativeTo? w.root = some (along names) := by
    rw [hroot]
    exact Path.relativeTo?_join (.absolute place) names
  rw [openDocument, Action.run_withFiles, hread]
  simp only [bind, Except.bind, hfs.resolve_eq hplace, hbelow, Option.isNone_some, Bool.false_eq_true, if_false,
    documentAt_located hfs hplace hfile]

/-- The source files of a project with a resolved root all lie below it. -/
theorem addressed_source {paths : List Path} (hfs : fs.IsTree) (hroot : fs.resolve w.root = .ok w.root)
    (hpaths : Scan.sourceFiles fs w.root w.scanOptions = .ok paths) (hp : p ∈ paths) :
    w.Addressed fs p (Uri.ofPath p) := by
  obtain ⟨rules, hrules⟩ := Scan.ignoreFiles_of_sourceFiles hpaths
  obtain ⟨files, hfiles, hsources⟩ := Scan.sourceFiles_ok hfs hrules
  obtain rfl := Except.ok.inj (hpaths.symm.trans hfiles)
  obtain ⟨names, hnames, rfl⟩ := List.mem_map.mp hp
  obtain ⟨place, bytes, hplace, hfile⟩ := ((hsources.complete names).mp hnames).file
  have habsolute : w.root = .absolute place := Except.ok.inj (hroot.symm.trans (hfs.resolve_eq hplace))
  have hjoin : w.root.join (along names) = .absolute (place ++ names) := by
    rw [habsolute]
    rfl
  rw [hjoin]
  refine ⟨?_, ⟨bytes, hfile⟩, opens_below habsolute⟩
  rw [hfs.resolve_eq (hfs.locatePath_file hfile)]
  rfl

/-- The symbols of a file carry the address of that file. -/
theorem uri_of_mem_symbols {infos : List SymbolInfo} {info : SymbolInfo} {uri : String}
    (haddress : (fs.resolve p).map Uri.ofPath = .ok uri) (hok : w.symbolsOf fs p = .ok infos)
    (hinfo : info ∈ infos) : info.uri = uri := by
  unfold symbolsOf at hok
  split at hok
  · cases hok
    exact absurd hinfo List.not_mem_nil
  · split at hok
    · cases hok
      exact absurd hinfo List.not_mem_nil
    · cases hok
    · next d hd =>
      obtain ⟨chars, -, hd⟩ := bind_eq_ok.mp hd
      obtain ⟨place, hplace, hd⟩ := bind_eq_ok.mp hd
      cases hd
      rw [hplace] at haddress
      obtain ⟨os, -, rfl⟩ := map_eq_ok.mp hok
      rw [Outline.uri_of_mem_all _ none os info hinfo]
      exact Except.ok.inj haddress

/-- What the index holds was found in a source file. -/
theorem found_in_source {index : SymbolIndex} {name : String} {info : SymbolInfo}
    (hindex : w.indexOf fs = .ok index) (hinfo : info ∈ index.find name) :
    ∃ paths p infos, Scan.sourceFiles fs w.root w.scanOptions = .ok paths ∧ p ∈ paths ∧
      w.symbolsOf fs p = .ok infos ∧ info ∈ infos := by
  obtain ⟨paths, hpaths, hindex⟩ := bind_eq_ok.mp hindex
  obtain ⟨symbols, hsymbols, hindex⟩ := bind_eq_ok.mp hindex
  cases hindex
  rw [SymbolIndex.find_group] at hinfo
  obtain ⟨infos, hinfos, hinfo⟩ := List.mem_flatten.mp (List.mem_of_mem_filter hinfo)
  obtain ⟨p, hp, hok⟩ := mem_of_mapM hsymbols hinfos
  exact ⟨paths, p, infos, hpaths, hp, hok, hinfo⟩

/-- A resolved path is read off its address, so that no two of them share one. Where the root of a project is
resolved, each of its source files has an address that opens it, and the symbols that the index has from
a file carry that address. -/
theorem addresses_open (w : Workspace) (fs : Files) :
    (∀ p, fs.Resolved p → Uri.toPath (Uri.ofPath p) = .ok p) ∧
      (∀ p q, fs.Resolved p → fs.Resolved q → Uri.ofPath p = Uri.ofPath q → p = q) ∧
      (fs.IsTree → fs.resolve w.root = .ok w.root →
        (∀ paths, Scan.sourceFiles fs w.root w.scanOptions = .ok paths →
          ∀ p ∈ paths, w.Addressed fs p (Uri.ofPath p)) ∧
        ∀ index, w.indexOf fs = .ok index → ∀ name, ∀ info ∈ index.find name, ∃ paths p infos,
          Scan.sourceFiles fs w.root w.scanOptions = .ok paths ∧ p ∈ paths ∧
          w.symbolsOf fs p = .ok infos ∧ info ∈ infos ∧ w.Addressed fs p info.uri) := by
  refine ⟨fun p hp => Uri.toPath_ofPath hp.canonical,
    fun p q hp hq => Uri.ofPath_injective hp.canonical hq.canonical, fun hfs hroot => ?_⟩
  refine ⟨fun paths hpaths p hp => addressed_source hfs hroot hpaths hp, fun index hindex name info hinfo => ?_⟩
  obtain ⟨paths, p, infos, hpaths, hp, hok, hinfo⟩ := found_in_source hindex hinfo
  have haddressed := addressed_source hfs hroot hpaths hp
  refine ⟨paths, p, infos, hpaths, hp, hok, hinfo, ?_⟩
  rw [uri_of_mem_symbols haddressed.address hok hinfo]
  exact haddressed

/-- A name that holds what would end a path, escape a character or cut a line. -/
def oddName : String := "50%25 #?;: ü\n.js"

def oddFiles : Files := ⟨[], [(["w"], .folder), (["w", oddName], .file (Text.encode helper.toList))]⟩

def oddPath : Path := .absolute ["w", oddName]

theorem oddFiles_tree : oddFiles.IsTree :=
  ⟨by decide +kernel, by decide +kernel, by decide +kernel, by decide +kernel⟩

theorem oddFiles_entry : oddFiles.entry? ["w", oddName] = some (.file (Text.encode helper.toList)) := by
  decide +kernel

theorem oddFiles_root : oddFiles.locatePath true tools.root = .ok ["w"] := by
  have hfolder : ([] ++ ["w"], Entry.folder) ∈ oddFiles.entries := List.mem_cons_self
  exact oddFiles_tree.locate_names (List.cons_ne_nil _ _) hfolder nofun

theorem oddFiles_unignored : Scan.ignoreFiles oddFiles tools.root tools.settings.nestedIgnores = .ok [] := by
  refine tools_unignored ?_
  simp [Files.isFile, Files.entryAt?, Files.locatePath, Files.absolute, Path.isAbsolute, Path.join,
    Path.absolute, Files.locate, Files.entry?, tools, oddFiles, oddName, List.lookup_cons]

theorem oddFiles_source {names : List String} :
    Scan.IsSource oddFiles tools.root tools.scanOptions.normal (Scan.ignoredBy []) names ↔ names = [oddName] := by
  constructor
  · rintro ⟨hbelow, ⟨place, bytes, hplace, hfile⟩, -⟩
    obtain rfl : ["w"] = place := Except.ok.inj (oddFiles_root.symm.trans hplace)
    have hmem := Files.mem_of_entry_eq (List.append_ne_nil_of_right_ne_nil _ hbelow) hfile
    rcases List.mem_cons.mp hmem with heq | hmem
    · cases (congrArg Prod.snd heq)
    · exact List.append_cancel_left (congrArg Prod.fst (List.mem_singleton.mp hmem))
  · rintro rfl
    refine ⟨List.cons_ne_nil _ _, ⟨["w"], _, oddFiles_root, oddFiles_entry⟩, ?_⟩
    exact ⟨by decide +kernel, nofun, rfl, .inl rfl, nofun⟩

theorem oddFiles_paths : Scan.sourceFiles oddFiles tools.root tools.scanOptions = .ok [oddPath] := by
  obtain ⟨files, hfiles, hsources⟩ := Scan.sourceFiles_ok (o := tools.scanOptions) oddFiles_tree oddFiles_unignored
  have hone : Scan.Sources oddFiles tools.root tools.scanOptions.normal (Scan.ignoredBy []) [[oddName]] :=
    ⟨List.pairwise_singleton _ _, fun names => List.mem_singleton.trans oddFiles_source.symm⟩
  rw [hfiles, hsources.unique hone]
  rfl

def oddSymbol : SymbolInfo := ⟨"go", .function, Uri.ofPath oddPath, ⟨⟨0, 0⟩, ⟨0, 16⟩, by decide⟩, none⟩

theorem oddFiles_symbols : tools.symbolsOf oddFiles oddPath = .ok [oddSymbol] := by
  unfold symbolsOf oddPath
  rw [documentAt_located oddFiles_tree (oddFiles_tree.locatePath_file oddFiles_entry) oddFiles_entry]
  decide +kernel

theorem addresses_open_odd :
    oddFiles.Resolved oddPath ∧ Uri.toPath (Uri.ofPath oddPath) = .ok oddPath ∧
      oddFiles.IsTree ∧ oddFiles.resolve tools.root = .ok tools.root ∧
      Scan.sourceFiles oddFiles tools.root tools.scanOptions = .ok [oddPath] ∧
      tools.Addressed oddFiles oddPath (Uri.ofPath oddPath) ∧
      tools.indexOf oddFiles = .ok ⟨SymbolIndex.group [oddSymbol], 1⟩ ∧
      oddSymbol ∈ SymbolIndex.find ⟨SymbolIndex.group [oddSymbol], 1⟩ "go" ∧
      ∃ paths p infos, Scan.sourceFiles oddFiles tools.root tools.scanOptions = .ok paths ∧ p ∈ paths ∧
        tools.symbolsOf oddFiles p = .ok infos ∧ oddSymbol ∈ infos ∧ tools.Addressed oddFiles p oddSymbol.uri := by
  have hresolved : oddFiles.Resolved oddPath :=
    ⟨oddPath.toString, by decide +kernel, oddFiles_tree.resolve_eq (oddFiles_tree.locatePath_file oddFiles_entry)⟩
  have hroot : oddFiles.resolve tools.root = .ok tools.root := oddFiles_tree.resolve_eq oddFiles_root
  have hindex : tools.indexOf oddFiles = .ok ⟨SymbolIndex.group [oddSymbol], 1⟩ := by
    rw [indexOf, oddFiles_paths]
    simp only [bind, Except.bind, List.mapM_cons, List.mapM_nil, oddFiles_symbols]
    rfl
  have hfound : oddSymbol ∈ SymbolIndex.find ⟨SymbolIndex.group [oddSymbol], 1⟩ "go" := by decide +kernel
  obtain ⟨hread, -, hopen⟩ := addresses_open tools oddFiles
  obtain ⟨hpaths, hsymbols⟩ := hopen oddFiles_tree hroot
  exact ⟨hresolved, hread oddPath hresolved, oddFiles_tree, hroot, oddFiles_paths,
    hpaths [oddPath] oddFiles_paths oddPath List.mem_cons_self, hindex, hfound,
    hsymbols _ hindex "go" oddSymbol hfound⟩

end Workspace

end Callees

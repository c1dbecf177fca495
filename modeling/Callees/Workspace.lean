import Callees.Files.Scan
import Callees.Pipeline
import Callees.Settings
import Callees.SyntaxTree

namespace Callees

structure Workspace where
  root : Path
  settings : Settings
  parse : Parse

/-- Symbols in groups, one for each name, and how many files they come from. -/
structure SymbolIndex where
  groups : List (String × List SymbolInfo)
  fileCount : Nat

namespace SymbolIndex

/-- Adds a symbol at the end of the group of its name. -/
def insert (info : SymbolInfo) : List (String × List SymbolInfo) → List (String × List SymbolInfo)
  | [] => [(info.name, [info])]
  | (name, infos) :: groups =>
    if name = info.name then (name, infos ++ [info]) :: groups
    else (name, infos) :: insert info groups

def group (infos : List SymbolInfo) : List (String × List SymbolInfo) :=
  infos.foldl (fun groups info => insert info groups) []

/-- The symbols of exactly this name, in the order in which they were added. -/
def find (index : SymbolIndex) (name : String) : List SymbolInfo :=
  (index.groups.lookup name).getD []

/-- Every name once, in order. -/
def names (index : SymbolIndex) : List String := nameSet (index.groups.map Prod.fst)

end SymbolIndex

/-- The file system, and the index if there is one. -/
structure Disk where
  files : Files
  index : Option SymbolIndex

namespace Workspace
open Lookup

def disk : Lookup Disk Disk := host fun d => (.ok d, d)

/-- A step of the file system alone. -/
def withFiles {α : Type} (f : Files → Except Failure α) : Lookup Disk α := do
  ofResult (f (← disk).files)

def documentAt (fs : Files) (p : Path) : Except Failure Document := do
  let chars ← fs.readText p
  let place ← fs.resolve p
  .ok ⟨Uri.ofPath place, String.ofList chars, Language.ofPath? p, 0⟩

/-- Opens a document by its name, if it lies within the project. -/
def openDocument (w : Workspace) (uri : String) : Lookup Disk Document :=
  withFiles fun fs => do
    let p ← fs.resolve (← Uri.toPath uri)
    if (p.relativeTo? w.root).isNone then .error (.outsideRoot uri w.root.toString)
    else documentAt fs p

/-- Opens a source file by its path, wherever it lies. -/
def openPath (w : Workspace) (p : Path) : Lookup Disk Document :=
  withFiles fun fs => do
    let p := w.root.join p
    if fs.isFile p then documentAt fs (← fs.resolve p) else .error (.noSourceFile p.toString)

def scanOptions (w : Workspace) : ScanOptions :=
  ⟨w.settings.extensions, w.settings.included, w.settings.excluded, w.settings.nestedIgnores⟩

/-- The symbols of a source file. One that the system refuses to read has none. -/
def symbolsOf (w : Workspace) (fs : Files) (p : Path) : Except Failure (List SymbolInfo) :=
  match Grammar.ofPath? p with
  | none => .ok []
  | some g =>
    match documentAt fs p with
    | .error (.refused ..) => .ok []
    | .error f => .error f
    | .ok d => (Outline.ofText w.parse g d.text).map (Outline.flatten d.uri)

/-- The index of the files as they are now. -/
def indexOf (w : Workspace) (fs : Files) : Except Failure SymbolIndex := do
  let paths ← Scan.sourceFiles fs w.root w.scanOptions
  let symbols ← paths.mapM (w.symbolsOf fs)
  .ok ⟨SymbolIndex.group symbols.flatten, paths.length⟩

def ensureIndex (w : Workspace) : Lookup Disk SymbolIndex := do
  match (← disk).index with
  | some index => pure index
  | none =>
    let index ← withFiles w.indexOf
    note (.indexBuilt w.root.toString index.fileCount index.names.length)
    host fun d => (.ok (), ⟨d.files, some index⟩)
    pure index

/-- The symbols of exactly this name. An empty name has none. -/
def symbols (w : Workspace) (name : String) : Lookup Disk (List SymbolInfo) := do
  if name = "" then pure []
  else
    let index ← w.ensureIndex
    pure (index.find name)

/-- Drops the index, so that the next query looks at the files anew. -/
def refresh : Lookup Disk Unit := host fun d => (.ok (), ⟨d.files, none⟩)

/-- How a change of the files leaves the index: as it was. -/
def changeFiles (f : Files → Except Failure Files) : Lookup Disk Unit :=
  host fun d =>
    match f d.files with
    | .ok files => (.ok (), ⟨files, d.index⟩)
    | .error e => (.error e, d)

/-- The pipeline of a project. Without the index, outlines are not used either. -/
def pipeline (w : Workspace) (useIndex : Bool) : Pipeline Disk :=
  let resolver : Resolver Disk := ⟨w.openDocument, if useIndex then some w.symbols else none⟩
  ⟨⟨if useIndex then some (Outline.provider w.parse) else none, w.settings.preambleWindow⟩,
    resolver.resolve, w.settings.maxWorkers, w.settings.ignoredNames⟩

end Workspace

end Callees

import Callees.Files
import Callees.Pattern.Ignore

namespace Callees

structure ScanOptions where
  extensions : List String
  included : List String
  excluded : List String
  nestedIgnores : Bool
  deriving Repr, DecidableEq

namespace Scan

/-- Folders that hold no sources of the project. -/
def skippedFolders : List String := [".git", "node_modules"]

def ignoreName : String := ".gitignore"

/-- Whether a path, with all links followed, is still below the folder. -/
def isWithin (fs : Files) (p folder : Path) : Except Failure Bool := do
  let folder ← fs.resolve folder
  let p ← fs.resolve p
  .ok (p.relativeTo? folder).isSome

/-- Whether a file counts as a source of `folder`. `extensions` are in their final form; `ignored`
tells of paths what the ignore files say. -/
def accepts (fs : Files) (folder : Path) (o : ScanOptions) (ignored : Path → Bool) (p : Path) :
    Except Failure Bool :=
  if !fs.isFile p || fs.isLink p then .ok false
  else if !o.extensions.contains p.extension then .ok false
  else do
    if !(← isWithin fs p folder) then .ok false
    else
      match p.relativeTo? folder with
      | none => .ok false
      | some below =>
        let name := below.toString
        .ok (!below.names.dropLast.any skippedFolders.contains && !ignored p &&
          (o.included.isEmpty || o.included.any (Glob.isMatch · name)) &&
          !o.excluded.any (Glob.isMatch · name))

/-- Everything in a folder, as paths that begin with the folder's own. Folders behind links are not
entered. -/
def walk (fs : Files) (folder : Path) : List Path :=
  match fs.locatePath true folder with
  | .error _ => []
  | .ok place => (fs.under place).map fun names => folder.join ⟨"", names⟩

def insertByName (p : Path) : List Path → List Path
  | [] => [p]
  | q :: qs => if p.toString < q.toString then p :: q :: qs else q :: insertByName p qs

/-- Paths below one folder in the order of their text. -/
def sortByName (ps : List Path) : List Path := ps.foldr insertByName []

def readIgnoreFile (fs : Files) (p : Path) : Except Failure IgnoreFile := do
  let bytes ← fs.readBytes p
  match Text.decodeStrict bytes with
  | .error (offset, broken) => .error (.notUnicode offset broken)
  | .ok chars => IgnoreFile.ofChars p.names.dropLast (Text.unifyBreaks chars)

/-- The ignore files that count: the one of the folder itself, or all of them that are no links. -/
def ignorePaths (fs : Files) (folder : Path) (nested : Bool) : Except Failure (List Path) :=
  let own := folder.join (Path.ofString ignoreName)
  if nested then do
    let found := (walk fs folder).filter fun p => p.name == ignoreName && fs.isFile p && !fs.isLink p
    let inside ← found.filterM (isWithin fs · folder)
    .ok (sortByName inside)
  else .ok (if fs.isFile own then [own] else [])

/-- A file is ignored if any ignore file above it says so. -/
def ignoredBy (files : List IgnoreFile) (p : Path) : Bool :=
  files.any fun f =>
    match Path.dropPrefix? f.folder p.names with
    | some names => f.ignores ("/".intercalate names).toList
    | none => false

def normalExtension (e : String) : String :=
  String.ofList ((Text.lower e).toList.dropWhile (· == '.'))

def sourceFiles (fs : Files) (folder : Path) (o : ScanOptions) : Except Failure (List Path) := do
  let ignores ← (← ignorePaths fs folder o.nestedIgnores).mapM (readIgnoreFile fs)
  let o := { o with extensions := o.extensions.map normalExtension }
  let found ← (walk fs folder).filterM (accepts fs folder o (ignoredBy ignores))
  .ok (sortByName found)

end Scan

end Callees

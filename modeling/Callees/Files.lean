import Callees.Failure
import Callees.Path
import Callees.Text.Lines
import Callees.Text.Utf8

namespace Callees

inductive Entry
  | file (bytes : List UInt8)
  | folder
  | link (target : Path)
  deriving Repr, DecidableEq

structure Files where
  current : List String
  entries : List (List String × Entry)
  deriving Repr

namespace Files

/-- How many links a path may lead through. -/
def maxLinks : Nat := 40

def entry? (fs : Files) (place : List String) : Option Entry :=
  if place = [] then some .folder else fs.entries.lookup place

def absolute (fs : Files) (p : Path) : List String :=
  if p.isAbsolute then p.names else fs.current ++ p.names

/-- Where a link leads to, seen from the folder that it lies in. -/
def linked (folder : List String) (target : Path) (rest : List String) : List String × List String :=
  (if target.isAbsolute then [] else folder, target.names ++ rest)

/-- The place of an existing entry. A link at the very end is followed only if `follow`. -/
def locate (fs : Files) (follow : Bool) (links : Nat) (place : List String) (rest : List String) :
    Except Refusal (List String) :=
  match rest with
  | [] => .ok place
  | n :: rest =>
    if n = ".." then fs.locate follow links place.dropLast rest
    else
      match fs.entry? (place ++ [n]) with
      | none => .error .notFound
      | some .folder => fs.locate follow links (place ++ [n]) rest
      | some (.file _) => if rest.isEmpty then .ok (place ++ [n]) else .error .notFolder
      | some (.link target) =>
        if rest.isEmpty && !follow then .ok (place ++ [n])
        else
          match links with
          | 0 => .error .tooManyLinks
          | links + 1 =>
            let (place, rest) := linked place target rest
            fs.locate follow links place rest
termination_by (links, rest.length)

def locatePath (fs : Files) (follow : Bool) (p : Path) : Except Refusal (List String) :=
  fs.locate follow maxLinks [] (fs.absolute p)

def entryAt? (fs : Files) (follow : Bool) (p : Path) : Option Entry :=
  match fs.locatePath follow p with
  | .ok place => fs.entry? place
  | .error _ => none

def isFile (fs : Files) (p : Path) : Bool :=
  match fs.entryAt? true p with
  | some (.file _) => true
  | _ => false

def isLink (fs : Files) (p : Path) : Bool :=
  match fs.entryAt? false p with
  | some (.link _) => true
  | _ => false

/-- Follows links and folds `..` whether or not anything is there. `seen` are the links met so far,
`again` what was left to do when the first of them was met a second time. -/
def settle (fs : Files) (links : Nat) (seen : List (List String)) (again : Option (List String))
    (place : List String) (rest : List String) : Except (List String) (List String) :=
  match rest with
  | [] => .ok place
  | n :: rest =>
    if n = ".." then fs.settle links seen again place.dropLast rest
    else
      match fs.entry? (place ++ [n]) with
      | some (.link target) =>
        let again := again.or
          (if seen.contains (place ++ [n]) then some (place ++ n :: rest) else none)
        match links with
        | 0 => .error (Path.fold (again.getD (place ++ n :: rest)))
        | links + 1 =>
          let (folder, rest) := linked place target rest
          fs.settle links ((place ++ [n]) :: seen) again folder rest
      | _ => fs.settle links seen again (place ++ [n]) rest
termination_by (links, rest.length)

/-- The canonical form of a path: absolute, without links and without `..`. -/
def resolve (fs : Files) (p : Path) : Except Failure Path :=
  if p.names.any (·.contains '\x00') then .error .nullInPath
  else
    match fs.settle maxLinks [] none [] (fs.absolute p) with
    | .ok names => .ok (Path.absolute names)
    | .error names => .error (.linkLoop (Path.absolute names).toString)

def refusal {α : Type} (p : Path) : Except Refusal α → Except Failure α
  | .ok a => .ok a
  | .error r => .error (.refused r p.toString)

def readBytes (fs : Files) (p : Path) : Except Failure (List UInt8) := do
  let place ← refusal p (fs.locatePath true p)
  match fs.entry? place with
  | some (.file bytes) => .ok bytes
  | _ => .error (.refused .isFolder p.toString)

/-- The text of a file, with every line break as `\n`. -/
def readText (fs : Files) (p : Path) : Except Failure (List Char) :=
  (fs.readBytes p).map fun bytes => Text.unifyBreaks (Text.decode bytes)

/-- Everything under a folder that is reached without following links, by its names from there. -/
def under (fs : Files) (folder : List String) : List (List String) :=
  fs.entries.filterMap fun (place, _) =>
    match Path.dropPrefix? folder place with
    | some (n :: names) => some (n :: names)
    | _ => none

def put (fs : Files) (place : List String) (e : Entry) : Files :=
  if fs.entries.any (·.1 == place) then
    ⟨fs.current, fs.entries.map fun old => if old.1 = place then (place, e) else old⟩
  else ⟨fs.current, fs.entries ++ [(place, e)]⟩

def makeFolder (fs : Files) (place : List String) : Files :=
  if (fs.entry? place).isSome then fs else fs.put place .folder

/-- Makes the folder at a place and all folders above it. -/
def makeFolders (fs : Files) (place : List String) : Files :=
  (List.range (place.length + 1)).foldl (fun fs n => fs.makeFolder (place.take n)) fs

/-- Where a file under these names comes to lie: its folder is looked up, and must be there. A link
that leads nowhere yet says where. -/
def placeFor (fs : Files) (links : Nat) (names : List String) : Except Refusal (List String) :=
  match fs.locate true maxLinks [] names with
  | .ok place => .ok place
  | .error .notFound => do
    let folder ← fs.locate true maxLinks [] names.dropLast
    let place := folder ++ names.getLast?.toList
    match fs.entry? folder, fs.entry? place with
    | some .folder, some (.link target) =>
      match links with
      | 0 => .error .tooManyLinks
      | links + 1 =>
        let (folder, rest) := linked folder target []
        fs.placeFor links (folder ++ rest)
    | some .folder, _ => .ok place
    | _, _ => .error .notFolder
  | .error r => .error r

/-- Writes a file anew or over an old one. -/
def write (fs : Files) (p : Path) (bytes : List UInt8) : Except Failure Files := do
  let place ← refusal p (fs.placeFor maxLinks (fs.absolute p))
  match fs.entry? place with
  | some .folder => .error (.refused .isFolder p.toString)
  | _ => .ok (fs.put place (.file bytes))

/-- Without the entry at `p` and all below it; a link goes, and not what it leads to. -/
def remove (fs : Files) (p : Path) : Files :=
  match fs.locatePath false p with
  | .ok place => ⟨fs.current, fs.entries.filter fun e => (Path.dropPrefix? place e.1).isNone⟩
  | .error _ => fs

/-- Puts an entry at `p`, with the folders that it needs. A file written over a link goes to where
the link leads. -/
def create (fs : Files) (p : Path) (e : Entry) : Files :=
  let names := fs.absolute p
  match fs.settle maxLinks [] none [] names.dropLast with
  | .error _ => fs
  | .ok folder =>
    let fs := fs.makeFolders folder
    let place := folder ++ names.getLast?.toList
    match e with
    | .file bytes => (fs.write (Path.absolute place) bytes).toOption.getD fs
    | .folder => fs.makeFolders place
    | .link _ => fs.put place e

/-- The file system with the given entries, made in order. -/
def ofEntries (current : List String) (entries : List (Path × Entry)) : Files :=
  entries.foldl (fun fs (p, e) => fs.create p e) (Files.makeFolders ⟨current, []⟩ current)

end Files

end Callees

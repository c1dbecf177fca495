import Callees.Data
import Callees.Files
import Callees.SyntaxTree

namespace Callees

def SyntaxTree.countOf : Data → Nat
  | .int n => n.toNat
  | _ => 0

def SyntaxTree.textOf? : Data → Option String
  | .text s => some s
  | _ => none

def SyntaxTree.bytesOf? : Data → Option (Nat × Nat)
  | .list [start, stop] => some (countOf start, countOf stop)
  | _ => none

def SyntaxTree.spanOf : Data → Point × Point
  | .list [r, c, r', c'] => (⟨countOf r, countOf c⟩, ⟨countOf r', countOf c'⟩)
  | _ => (⟨0, 0⟩, ⟨0, 0⟩)

mutual

/-- A node is a list: its kind, span, bytes and field, and the list of its children. -/
def SyntaxTree.ofData : Data → SyntaxTree
  | .list [kind, span, bytes, field, .list children] =>
    let (start, stop) := spanOf span
    .node ((textOf? kind).getD "") start stop (bytesOf? bytes) (textOf? field) (ofItems children)
  | _ => .empty

def SyntaxTree.ofItems : List Data → List SyntaxTree
  | [] => []
  | d :: ds => ofData d :: ofItems ds

end

structure Snapshot where
  files : Files
  /-- The trees that are known, under their texts; later ones first. -/
  trees : List (String × SyntaxTree)

namespace Snapshot

def hexBytes : List Char → List UInt8
  | a :: b :: cs =>
    UInt8.ofNat (16 * (Text.hexValue? a).getD 0 + (Text.hexValue? b).getD 0) :: hexBytes cs
  | _ => []

/-- The bytes of a file that is given by its text or in hexadecimal digits. -/
def bytes? (spec : Data) : Option (List UInt8) :=
  match spec.field? "text", spec.field? "hex" with
  | some (.text s), _ => some (Text.encode s.toList)
  | _, some (.text s) => some (hexBytes s.toList)
  | _, _ => none

def entry (root : Path) (spec : Data) : Entry :=
  match bytes? spec, spec.field? "symlink" with
  | some bytes, _ => .file bytes
  | none, some (.text target) => .link (root.join (Path.ofString target))
  | none, _ => .folder

/-- The tree of a file, under the text that is read from that file. -/
def tree? (spec : Data) : Option (String × SyntaxTree) :=
  match bytes? spec, spec.field? "tree" with
  | some bytes, some tree =>
    some (String.ofList (Text.unifyBreaks (Text.decode bytes)), SyntaxTree.ofData tree)
  | _, _ => none

def ofSpecs (root : Path) (specs : List (String × Data)) : Snapshot :=
  ⟨Files.ofEntries root.names (specs.map fun (path, spec) =>
      (root.join (Path.ofString path), entry root spec)),
    (specs.filterMap fun spec => tree? spec.2).reverse⟩

/-- A parser of the texts whose trees are known; any other text counts as empty. -/
def parse (s : Snapshot) : Parse := fun _ text => (s.trees.lookup text).getD .empty

end Snapshot

end Callees

import Callees.Text.LetterCase
import Callees.Text.Lines

namespace Callees

structure Path where
  /-- `/`, `//`, or nothing for a relative path. -/
  root : String
  names : List String
  deriving Repr, DecidableEq

namespace Path

def namesOf (cs : List Char) : List String :=
  ((Text.splitOnChar '/' cs).filter fun n => n ≠ [] ∧ n ≠ ['.']).map String.ofList

def ofString (s : String) : Path :=
  let slashes := s.toList.takeWhile (· == '/')
  ⟨match slashes.length with
    | 0 => ""
    | 2 => "//"
    | _ => "/", namesOf s.toList⟩

def toString (p : Path) : String :=
  if p.root = "" ∧ p.names = [] then "." else p.root ++ "/".intercalate p.names

instance : ToString Path := ⟨toString⟩

def isAbsolute (p : Path) : Bool := p.root != ""

/-- An absolute path of plain names. -/
def absolute (names : List String) : Path := ⟨"/", names⟩

def join (base p : Path) : Path := if p.isAbsolute then p else ⟨base.root, base.names ++ p.names⟩

def name (p : Path) : String := p.names.getLast?.getD ""

def dropPrefix? : List String → List String → Option (List String)
  | [], names => some names
  | _ :: _, [] => none
  | b :: bs, n :: ns => if b = n then dropPrefix? bs ns else none

/-- What is left of `p` below `base`, by names alone. -/
def relativeTo? (p base : Path) : Option Path :=
  if p.root = base.root then (dropPrefix? base.names p.names).map (⟨"", ·⟩) else none

/-- From the last point of the name on; nothing if the point begins or ends the name. -/
def suffixOf (name : List Char) : List Char :=
  let after := (name.reverse.takeWhile (· != '.')).reverse
  let stem := name.length - after.length - 1
  if name.contains '.' ∧ 0 < stem ∧ after ≠ [] then '.' :: after else []

/-- The suffix without its point, in lower case. -/
def extension (p : Path) : String :=
  Text.lower (String.ofList ((suffixOf p.name.toList).dropWhile (· == '.')))

/-- Names with every `..` taking back the name before it. -/
def fold (names : List String) : List String :=
  (names.foldl (fun done n => if n = ".." then done.tail else n :: done) []).reverse

end Path

end Callees

import Callees.Document
import Callees.Pattern

namespace Callees

structure CallSite where
  name : String
  range : Range
  line : Int
  character : Int
  deriving Repr, DecidableEq

namespace CallSite
open Pattern

def shape : Pattern := all [wordEdge, named (all [one Text.isIdentStart, many (one Text.isIdentChar)]),
  blanks, char '(']

/-- The span of a document that `range` covers, as an offset and the text from there. -/
def scanned (d : Document) : Option Range → Nat × List Char
  | none => (0, d.chars)
  | some r => (d.offsetAt r.start, d.charsIn r)

def at_ (d : Document) (start : Nat) (name : List Char) : CallSite :=
  let p := d.positionAt start
  ⟨String.ofList name, Range.onLine p name.length, p.line, p.character⟩

/-- The calls within `range`, or in the whole document, other than of the names in `skipped`. -/
def inDocument (d : Document) (range : Option Range) (skipped : List String) : List CallSite :=
  let (base, text) := scanned d range
  (shape.occurrences text).filterMap fun m =>
    m.name.bind fun (a, b) =>
      let name := Document.slice text a b
      if skipped.contains (String.ofList name) then none else some (at_ d (base + a) name)

/-- The first call of each name. -/
def firstOfEach : List CallSite → List CallSite
  | [] => []
  | c :: cs => c :: (firstOfEach cs).filter (·.name != c.name)

end CallSite

end Callees

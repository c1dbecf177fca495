import Callees.Pattern

namespace Callees.Glob
open Pattern

/-- A character, or all from one to another; a span that runs backwards holds none. -/
structure Span where
  first : Char
  last : Char
  deriving Repr, DecidableEq

def Span.holds (s : Span) (c : Char) : Bool := s.first ≤ c && c ≤ s.last

/-- Characters with a hyphen between them span all from the first to the last. A hyphen at either end
stands for itself. -/
def spans : List Char → List Span
  | a :: '-' :: b :: cs => ⟨a, b⟩ :: spans cs
  | a :: cs => ⟨a, a⟩ :: spans cs
  | [] => []

def inSpans (ss : List Span) (c : Char) : Bool := ss.any (·.holds c)

/-- What is inside a bracket, and what follows it. A closing bracket right at the start belongs to the
class. -/
def bracket? (cs : List Char) : Option (Bool × List Char × List Char) :=
  let (negated, cs) := match cs with
    | '!' :: cs => (true, cs)
    | cs => (false, cs)
  let (first, rest) := match cs with
    | ']' :: cs => ([']'], cs)
    | cs => ([], cs)
  let inner := rest.takeWhile (· != ']')
  match rest.drop inner.length with
  | _ :: after => some (negated, first ++ inner, after)
  | [] => none

/-- The parts of a pattern, read in at most `n` steps. An open bracket that is not closed stands for
itself. -/
def parts : Nat → List Char → List Pattern
  | 0, _ => []
  | _ + 1, [] => []
  | n + 1, c :: cs =>
    if c = '*' then many (one fun _ => true) :: parts n cs
    else if c = '?' then one (fun _ => true) :: parts n cs
    else if c = '[' then
      match bracket? cs with
      | some (negated, inner, rest) =>
        let ss := spans inner
        one (fun c => inSpans ss c != negated) :: parts n rest
      | none => char '[' :: parts n cs
    else char c :: parts n cs

def pattern (glob : String) : Pattern :=
  all (parts (glob.length + 1) glob.toList ++ [atEnd])

def isMatch (glob name : String) : Bool := ((pattern glob).matchAt none 0 name.toList).isSome

end Callees.Glob

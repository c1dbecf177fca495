import Callees.Pattern

namespace Callees.Header
open Pattern

/-- Type parameters, without nesting. -/
def generics : Pattern :=
  optional (all [char '<', many (noneOf ['<', '>', '\x7b', '\x7d']), char '>'])

/-- A parameter list may nest one level of parentheses or braces, for defaults and destructuring. -/
def params : Pattern :=
  let flat := ['(', ')', '\x7b', '\x7d']
  all [char '(',
    many (oneOf [noneOf flat,
      all [char '(', many (noneOf flat), char ')'],
      all [char '\x7b', many (noneOf flat), char '\x7d']]),
    char ')']

def returnType : Pattern :=
  optional (all [blanks, char ':', blanks, many1 (noneOf ['\x7b', '\x7d', ';', '=', '(', ')'])])

def functionWord : Pattern := all [word "function", blanks, optional (char '*'), blanks]

def functionExpression : Pattern :=
  all [functionWord, optional identifier, blanks, generics, blanks, params, returnType]

def arrow : Pattern :=
  all [either (all [generics, blanks, params, returnType]) identifier, blanks, word "=>"]

def functionValue : Pattern :=
  next (optional (next (word "async") blanks1)) (either functionExpression arrow)

/-- The shapes of a header. -/
inductive Shape
  | assigned
  | keyed
  | declared
  | method
  deriving Repr, DecidableEq

namespace Shape

/-- Most specific first. -/
def inOrder : List Shape := [assigned, keyed, declared, method]

/-- Each pattern ends where the preamble ends, right before the brace. -/
def pattern : Shape → Pattern
  | assigned =>
    all [named identifier, blanks,
      optional (next (char ':') (many1 (noneOf ['=', ';', '\x7b', '\x7d', '(', ')']))),
      char '=', blanks, functionValue, blanks, atEnd]
  | keyed => all [named identifier, blanks, char ':', blanks, functionValue, blanks, atEnd]
  | declared =>
    all [functionWord, optional (named identifier), blanks, generics, blanks, params, returnType,
      blanks, atEnd]
  | method =>
    all [named identifier, blanks, generics, blanks, params, returnType, blanks, atEnd]

end Shape

/-- Words that come before a parenthesis without naming a method. -/
def notMethods : List String := Keyword.control ++ ["function", "with"]

/-- Where a header starts in the preamble, and its name if it has one. -/
structure Found where
  start : Nat
  name : Option String
  deriving Repr, DecidableEq

def ofMatch (preamble : List Char) (m : Match) : Found :=
  ⟨m.start, m.name.map fun (a, b) => String.ofList ((preamble.drop a).take (b - a))⟩

def ofShape (preamble : List Char) (shape : Shape) : Option Found :=
  ((shape.pattern.search preamble).map (ofMatch preamble)).filter fun found =>
    !(shape == .method && found.name.any notMethods.contains)

/-- The header that `preamble` ends with, by the first shape that fits. -/
def find? (preamble : List Char) : Option Found := Shape.inOrder.findSome? (ofShape preamble)

end Callees.Header

import Callees.Position

namespace Callees

inductive Step
  | field (name : String)
  | item (index : Nat)
  deriving Repr, DecidableEq

/-- Rules of single fields and of whole records. -/
inductive Rule
  | rangeOrder (start stop : Position)
  | extensionList
  /-- With the entry as a message shows it. -/
  | extension (shown : String)
  | ignoredName (name : String)
  deriving Repr, DecidableEq

namespace Rule

def pair (p : Position) : String := "(" ++ toString p.line ++ ", " ++ toString p.character ++ ")"

def message : Rule → String
  | rangeOrder start stop => "range start " ++ pair start ++ " is after end " ++ pair stop
  | extensionList => "extensions must be a list of file extensions"
  | extension shown => "Invalid file extension: " ++ shown
  | ignoredName name => "ignored_names entry '" ++ name ++ "' is not an identifier"

end Rule

inductive Problem
  | missing
  | notInteger
  | unreadableInteger
  | fractional
  | notFinite
  | notBoolean
  | unreadableBoolean
  | notText
  | tooShort
  | malformed
  | notList
  | notSequence
  | unknownWord
  | notRecord
  | unknownField
  | notGreater
  | notAtLeast
  | broken (rule : Rule)
  deriving Repr, DecidableEq

namespace Problem

def code : Problem → String
  | missing => "missing"
  | notInteger => "int_type"
  | unreadableInteger => "int_parsing"
  | fractional => "int_from_float"
  | notFinite => "finite_number"
  | notBoolean => "bool_type"
  | unreadableBoolean => "bool_parsing"
  | notText => "string_type"
  | tooShort => "string_too_short"
  | malformed => "string_pattern_mismatch"
  | notList => "list_type"
  | notSequence => "tuple_type"
  | unknownWord => "literal_error"
  | notRecord => "model_type"
  | unknownField => "extra_forbidden"
  | notGreater => "greater_than"
  | notAtLeast => "greater_than_equal"
  | broken _ => "value_error"

/-- The words of a broken rule; the other problems are told by their code. -/
def message? : Problem → Option String
  | broken rule => some ("Value error, " ++ rule.message)
  | _ => none

end Problem

structure Issue where
  place : List Step
  problem : Problem
  deriving Repr, DecidableEq

namespace Issue

def within (step : Step) (issue : Issue) : Issue := ⟨step :: issue.place, issue.problem⟩

def stepText : Step → String
  | .field name => name
  | .item index => toString index

def message (issue : Issue) : String :=
  ".".intercalate (issue.place.map stepText) ++ ": " ++
    issue.problem.message?.getD issue.problem.code

end Issue

end Callees

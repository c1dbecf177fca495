import Callees.Data.Json
import Callees.Data.Literal
import Callees.Lookup
import Callees.Text.Lines

namespace Callees.Log

structure Entry where
  severity : Severity
  event : String
  logger : String
  fields : List (String × Data)

def ofEvent (logger : String) (e : Event) : Entry := ⟨e.severity, e.name, logger, e.fields⟩

/-- The least severity that is written, by its name; any other word stands for warnings. -/
def threshold (word : String) : Severity :=
  match Severity.ofName? word with
  | some s => s
  | none => .warning

def Entry.isShown (least : Severity) (e : Entry) : Bool := least.rank ≤ e.severity.rank

/-- The value of an argument in a message. -/
def plain : Data → String
  | .text s => s
  | d => Literal.text d

/-- A message whose `%s` and `%d` stand for the arguments in turn. Without arguments it stays as it
is. -/
def fill : List Data → List Char → List Char
  | args, '%' :: '%' :: cs => '%' :: fill args cs
  | a :: args, '%' :: c :: cs =>
    if c = 's' ∨ c = 'd' then (plain a).toList ++ fill args cs
    else if c = 'r' then (Literal.text a).toList ++ fill args cs
    else '%' :: c :: fill (a :: args) cs
  | args, c :: cs => c :: fill args cs
  | _, [] => []

def message (text : String) (args : List Data) : String :=
  if args.isEmpty then text else String.ofList (fill args text.toList)

def padRight (width : Nat) (s : String) : String := s ++ String.ofList (List.replicate (width - s.length) ' ')

/-- Texts are put into quotes where they could be taken for several words. -/
def value : Data → String
  | .text s =>
    if s.toList.any [' ', '\t', '=', '\r', '\n', '"', '\''].contains then Text.quoted s else s
  | d => Literal.text d

def Entry.sortedFields (e : Entry) : List (String × Data) := e.fields.foldr Json.insertField []

/-- One line for a console. -/
def Entry.line (stamp : String) (e : Entry) : String :=
  let fields := e.sortedFields.map fun (name, d) => " " ++ name ++ "=" ++ value d
  stamp ++ " [" ++ padRight 9 e.severity.name ++ "] " ++ padRight 30 e.event ++ " [" ++ e.logger ++
    "]" ++ String.join fields

/-- The same as a record. -/
def Entry.toData (stamp : String) (e : Entry) : Data :=
  .record (e.fields ++ [("event", .text e.event), ("level", .text e.severity.name),
    ("logger", .text e.logger), ("timestamp", .text stamp)])

end Callees.Log

import Callees.Command
import Callees.Data.JsonReader
import Callees.Log
import Callees.Snapshot

namespace Callees.Program

def textField (d : Data) (name default : String) : String :=
  match d.field? name with
  | some (.text s) => s
  | _ => default

def logger : String := "xray"

def logLine (stamp : String) (style : Command.LogStyle) (e : Event) : Option String :=
  let entry := Log.ofEvent logger e
  if !entry.isShown style.least then none
  else if style.json then some (String.ofList (Json.write none (entry.toData stamp)))
  else some (entry.line stamp)

def logLines (stamp : String) (o : Command.Outcome) : List String :=
  match o.style with
  | some style => o.log.filterMap (logLine stamp style)
  | none => []

/-- The files that are new or have another content than before. -/
def written (old new : Files) : List (Path × List UInt8) :=
  new.entries.filterMap fun (place, entry) =>
    match entry with
    | .file bytes =>
      if old.entry? place = some entry then none else some (Path.absolute place, bytes)
    | _ => none

def run (arguments : List String) : IO UInt32 := do
  let input ← (← IO.getStdin).getLine
  let project := (JsonReader.read? input).getD .null
  let root := Path.ofString (textField project "root" "/")
  let home := Path.ofString (textField project "home" "/")
  let specs := match project.field? "files" with
    | some (.record fields) => fields
    | _ => []
  let snapshot := Snapshot.ofSpecs root specs
  let outcome := Command.run .usual snapshot.parse home snapshot.files arguments
  for (path, bytes) in written snapshot.files outcome.files do
    IO.FS.writeBinFile path.toString ⟨bytes.toArray⟩
  for line in logLines (textField project "now" "-") outcome do
    IO.eprintln line
  IO.eprint outcome.ending.complaint
  IO.print outcome.ending.output
  return outcome.ending.code.toUInt32

end Callees.Program

def main (arguments : List String) : IO UInt32 := Callees.Program.run arguments

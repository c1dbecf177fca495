import Callees.Data.Json
import Callees.Files
import Callees.Language
import Callees.Report
import Callees.Text.Lines
import Callees.Uri

namespace Callees.Render

/-- How many lines were left out. -/
def elision (hidden : Nat) : List Char :=
  ("// ... (" ++ toString hidden ++ " more " ++ (if hidden = 1 then "line" else "lines") ++
    ")").toList

/-- Moves the text to the left and cuts it to `maxLines` lines, if that is at least one. -/
def content (text : List Char) (maxLines : Int) : List Char :=
  let lines := Text.shownLines (Text.dedent text)
  if maxLines < 1 ∨ lines.length ≤ maxLines then List.intercalate ['\n'] lines
  else
    let shown := maxLines.toNat
    List.intercalate ['\n'] (lines.take shown ++ [elision (lines.length - shown)])

def place (p : Position) : String := toString (p.line + 1) ++ ":" ++ toString (p.character + 1)

def scope (s : Scope) : String :=
  s.name ++ " (" ++ place s.range.start ++ "-" ++ place s.range.stop ++ ")"

/-- A document's path as seen from the root, or as it is if it lies elsewhere. -/
def location (fs : Files) (root : Option Path) (uri : String) : Except Failure String :=
  match Uri.toPath uri with
  | .error _ => .ok uri
  | .ok path =>
    match root with
    | none => .ok path.toString
    | some root =>
      match (do
        let path ← fs.resolve path
        let root ← fs.resolve root
        .ok (path.relativeTo? root) : Except Failure (Option Path)) with
      | .ok (some below) => .ok below.toString
      | .error (.linkLoop at_) => .error (.linkLoop at_)
      | _ => .ok path.toString

def language (uri : String) : Option String := (Uri.toPath uri).toOption.bind Language.ofPath?

def definition (fs : Files) (root : Option Path) (maxLines : Option Int) (d : Definition) :
    Except Failure String := do
  let path ← location fs root d.sourceUri
  let label := match language d.sourceUri with
    | some l => "  [" ++ l ++ "]"
    | none => ""
  let body := match maxLines with
    | some n => String.ofList (content d.content.toList n)
    | none => d.content
  .ok ("## " ++ d.name ++ "  " ++ path ++ ":" ++ toString (d.startLine + 1) ++ label ++ "\n" ++ body)

def report (fs : Files) (root : Option Path) (maxLines : Option Int) (r : Report) :
    Except Failure String := do
  match r.scope with
  | none => .ok (r.message?.getD "" ++ "\n")
  | some s =>
    let n := r.callSites.length
    let head := "inside " ++ s.name ++ " (" ++ toString n ++ (if n = 1 then " call)" else " calls)")
    let parts ← if r.isEmpty then .ok [r.message?.getD ""]
      else r.definitions.mapM (definition fs root maxLines)
    .ok ("\n\n".intercalate (head :: parts) ++ "\n")

end Callees.Render

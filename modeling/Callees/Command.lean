import Callees.Command.Arguments
import Callees.Definition
import Callees.Report.Render
import Callees.Settings
import Callees.Verify
import Callees.Workspace

namespace Callees.Command

/-- A place in a source file, with line and column counted from one. -/
structure Cursor where
  file : String
  line : Nat
  column : Nat
  deriving Repr, DecidableEq

def Cursor.position (c : Cursor) : Position := ⟨c.line - 1, c.column - 1⟩

inductive Action
  | scope (at_ : Cursor)
  | calls (at_ : Cursor)
  | resolve (name file : String)
  /-- `copy` is where the definitions go as well. -/
  | trace (at_ : Cursor) (json : Bool) (copy : Option String)
  | hover (at_ : Cursor)
  | verify (at_ : Cursor)
  deriving Repr, DecidableEq

def Action.file : Action → String
  | scope c | calls c | trace c _ _ | hover c | verify c => c.file
  | resolve _ file => file

structure Request where
  action : Action
  root : String
  withoutIndex : Bool
  level : Option Severity
  deriving Repr, DecidableEq

namespace Request

def cursorArguments : List String := ["file", "line", "col"]

def commonOptions : List OptionSpec :=
  helpOptions ++ [⟨"--root", true⟩, ⟨"--no-index", false⟩, ⟨"--log-level", true⟩]

def cursor (r : Reading) : Except Misuse Cursor :=
  match r.value? "file", (r.value? "line").bind positive?, (r.value? "col").bind positive? with
  | some file, some line, some column => .ok ⟨file, line, column⟩
  | _, _, _ => .error .malformed

/-- Reads the arguments of a command that is about a cursor. -/
def aboutCursor (options : List OptionSpec) (arguments : List String)
    (action : Cursor → Reading → Action) : Except Misuse (Reading × Action) := do
  let r ← read ⟨cursorArguments, commonOptions ++ options⟩ arguments
  .ok (r, action (← cursor r) r)

def aboutName (arguments : List String) : Except Misuse (Reading × Action) := do
  let r ← read ⟨["name"], commonOptions ++ [⟨"--from", true⟩]⟩ arguments
  match r.value? "name", r.value? "--from" with
  | some name, some file => .ok (r, .resolve name file)
  | _, _ => .error .malformed

def ofCommand (command : String) (arguments : List String) : Except Misuse (Reading × Action) :=
  match command with
  | "scope" => aboutCursor [] arguments fun c _ => .scope c
  | "calls" => aboutCursor [] arguments fun c _ => .calls c
  | "resolve" => aboutName arguments
  | "trace" =>
    aboutCursor [⟨"--json", false⟩, ⟨"--out", true⟩] arguments fun c r =>
      .trace c (r.value? "--json").isSome (r.value? "--out")
  | "hover" => aboutCursor [] arguments fun c _ => .hover c
  | "verify" => aboutCursor [] arguments fun c _ => .verify c
  | _ => .error .malformed

/-- What has been left over is told last. -/
def ofReading (r : Reading) (action : Action) : Except Misuse Request :=
  if r.leftOver.isEmpty then
    .ok ⟨action, (r.value? "--root").getD ".", (r.value? "--no-index").isSome,
      (r.value? "--log-level").bind Severity.ofName?⟩
  else .error .malformed

/-- The first argument that is no option is the command. No option but help may stand before it,
though what is wrong behind it is told first. -/
def ofArguments : List String → Except Misuse Request
  | [] => .error .malformed
  | text :: rest =>
    if text = "--" then .error .malformed
    else do
      match ← token helpOptions text with
      | .plain command =>
        let (r, action) ← ofCommand command rest
        ofReading r action
      | .option spec value => .error (helpMisuse spec value)
      | _ =>
        let _ ← ofArguments rest
        .error .malformed

end Request

/-- What a command says, and the code it ends with. -/
structure Reply where
  code : Nat
  output : String
  complaint : String
  deriving Repr, DecidableEq

namespace Reply

def shown (output : String) : Reply := ⟨0, output, ""⟩

def line (text : String) : Reply := shown (text ++ "\n")

def refusal (code : Nat) (complaint : String) : Reply := ⟨code, "", complaint ++ "\n"⟩

end Reply

/-- What a command works on: the project, its pipeline and the document in question. -/
structure Bench where
  workspace : Workspace
  pipeline : Pipeline Disk
  document : Document
  /-- The home folder. -/
  home : Path

open Lookup

/-- A path may begin with `~` for the home folder. Nobody else's home is known. -/
def expand (home : Path) (text : String) : Except Failure Path :=
  let p := Path.ofString text
  match p.isAbsolute, p.names with
  | false, name :: names =>
    if name = "~" then .ok (home.join ⟨"", names⟩)
    else if name.toList.head? = some '~' then .error .noHome
    else .ok p
  | _, _ => .ok p

namespace Bench

def root (b : Bench) : Path := b.workspace.root

def inScope (b : Bench) (c : Cursor) (show_ : Scope → Reply) : Lookup Disk Reply := do
  match ← b.pipeline.locate b.document c.position with
  | none => pure (.line Report.noScope)
  | some scope => pure (show_ scope)

def callLine (c : CallSite) : String :=
  c.name ++ "\t" ++ toString (c.line + 1) ++ ":" ++ toString (c.character + 1) ++ "\n"

def callList (b : Bench) (scope : Scope) : Reply :=
  .shown (String.join ((b.pipeline.callSites b.document scope).map callLine))

/-- A definition for reading, as it is or cut to some lines. -/
def definition (b : Bench) (maxLines : Option Int) (d : Definition) : Lookup Disk Reply := do
  let text ← ofResult (Render.definition (← Workspace.disk).files (some b.root) maxLines d)
  pure (.line text)

def writeCopy (b : Bench) (path : String) (definitions : List Definition) : Lookup Disk Unit := do
  let p ← ofResult (expand b.home path)
  match Json.lines? (definitions.map Definition.toData) with
  | none => fail .integerTooWide
  | some text => Workspace.changeFiles fun fs => fs.write p (Text.encode text.toList)

def reportText (b : Bench) (json : Bool) (r : Report) : Lookup Disk String := do
  if json then
    match Json.text? r.toData true with
    | some text => pure (text ++ "\n")
    | none => fail .integerTooWide
  else ofResult (Render.report (← Workspace.disk).files (some b.root) none r)

end Bench

open Bench in
def perform (b : Bench) : Action → Lookup Disk Reply
  | .scope c => b.inScope c fun scope => .line (Render.scope scope)
  | .calls c => b.inScope c b.callList
  | .resolve name _ => do
    match ← b.pipeline.resolve name b.document with
    | none => pure (.refusal 1 ("no definition found for " ++ name))
    | some d => b.definition none d
  | .trace c json copy => do
    let report ← b.pipeline.run b.document c.position
    match copy with
    | none => pure ()
    | some path => b.writeCopy path report.definitions
    return .shown (← b.reportText json report)
  | .hover c => do
    match ← Hover.definition b.pipeline.resolve b.document c.position with
    | none => pure (.refusal 1 "no call under cursor resolves to a definition")
    | some d => b.definition (some b.workspace.settings.hoverMaxLines) d
  | .verify c => do
    let r ← Repetition.verify b.pipeline b.document c.position 2
    pure ⟨if r.ok then 0 else 1, "", String.join (r.complaints.map (· ++ "\n"))⟩

/-- Opens the source file that the request is about. A missing one is told and ends the command. -/
def onSource (w : Workspace) (home : Path) (file : String)
    (act : Document → Lookup Disk Reply) : Lookup Disk Reply := do
  let p ← ofResult (expand home file)
  match ← attempt (w.openPath p) with
  | .ok d => act d
  | .error f => if f.isAbsence then pure (.refusal 2 ("error: " ++ f.message)) else fail f

def answer (w : Workspace) (home : Path) (q : Request) : Lookup Disk Reply :=
  let useIndex := !q.withoutIndex && w.settings.useIndex
  onSource w home q.action.file fun d => perform ⟨w, w.pipeline useIndex, d, home⟩ q.action

/-- How a command ends. -/
inductive Ending
  | replied (reply : Reply)
  | misused (m : Misuse)
  /-- The settings cannot be used. -/
  | unusable (f : Failure)
  | failed (f : Failure)

/-- From which severity on the log is written, and whether as JSON. -/
structure LogStyle where
  least : Severity
  json : Bool
  deriving Repr, DecidableEq

structure Outcome where
  ending : Ending
  /-- Settled as soon as the settings are read. -/
  style : Option LogStyle
  log : List Event
  files : Files

namespace Ending

def code : Ending → Nat
  | replied r => r.code
  | misused .help => 0
  | failed _ => 1
  | misused _ | unusable _ => 2

def output : Ending → String
  | replied r => r.output
  | _ => ""

/-- What goes to the side of the errors, ends of lines included. -/
def complaint : Ending → String
  | replied r => r.complaint
  | misused m => (m.message?.map (· ++ "\n")).getD ""
  | unusable f => "error: " ++ f.message ++ "\n"
  | failed f => f.summary ++ "\n"

end Ending

/-- The root of the project, and its settings. -/
def project (stack : Toml.Stack) (fs : Files) (home : Path) (q : Request) : Except Failure (Path × Settings) := do
  let root ← fs.resolve (← expand home q.root)
  .ok (root, ← Settings.load stack fs root)

def style (q : Request) (s : Settings) : LogStyle := ⟨q.level.getD s.logLevel, s.logJson⟩

def run (stack : Toml.Stack) (parse : Parse) (home : Path) (fs : Files) (arguments : List String) :
    Outcome :=
  match Request.ofArguments arguments with
  | .error m => ⟨.misused m, none, [], fs⟩
  | .ok q =>
    match project stack fs home q with
    | .error f =>
      match f with
      | .badSyntax _ | .badSettings .. => ⟨.unusable f, none, [], fs⟩
      | _ => ⟨.failed f, none, [], fs⟩
    | .ok (root, settings) =>
      let (result, session) := (answer ⟨root, settings, parse⟩ home q).run ⟨⟨fs, none⟩, []⟩
      let ending := match result with
        | .ok reply => Ending.replied reply
        | .error f => .failed f
      ⟨ending, some (style q settings), session.log, session.host.files⟩

end Callees.Command

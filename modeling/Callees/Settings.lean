import Callees.Data.Literal
import Callees.Data.Reader
import Callees.Data.Toml
import Callees.Files
import Callees.Lookup
import Callees.Text.LetterCase

namespace Callees

structure Settings where
  included : List String
  excluded : List String
  extensions : List String
  nestedIgnores : Bool
  useIndex : Bool
  preambleWindow : Int
  maxWorkers : Int
  ignoredNames : List String
  hoverMaxLines : Int
  logLevel : Severity
  logJson : Bool
  deriving Repr, DecidableEq

namespace Settings
open Reader Checked

def defaultExtensions : List String := ["js", "jsx", "mjs", "cjs", "ts", "tsx", "mts", "cts"]

def default : Settings :=
  ⟨[], [], defaultExtensions, false, true, 200, 8, [], 20, .warning, false⟩

/-- An extension with or without its point. Of a name of points and blanks nothing would be left. -/
def extension? : Data → Option String
  | .text s =>
    let isPoint := fun c => c == '.'
    if (Text.trim Text.isBlank (Text.trim isPoint s.toList)).isEmpty then none
    else
      let bare := Text.trimLeft isPoint (Text.trim Text.isBlank s.toList)
      some (Text.lower (String.ofList bare))
  | _ => none

def extensionsOf : List Data → Checked (List String)
  | [] => .ok []
  | d :: ds =>
    match extension? d with
    | none => one (.broken (.extension (Literal.text d)))
    | some e => (extensionsOf ds).map (e :: ·)

def readExtensions : Reader (List String)
  | .null => .ok defaultExtensions
  | .list ds => extensionsOf ds
  | _ => one (.broken .extensionList)

def readIgnoredNames : Reader (List String) := fun d => do
  let names ← list text d
  match names.find? fun n => !Text.isIdentifier n.toList with
  | some n => one (.broken (.ignoredName n))
  | none => .ok names

/-- `json` is the usual name of the second field; the long one counts where the short one is left
out. -/
def readLogging : Reader (Severity × Bool) := fun d => do
  let fs ← fields d
  let jsonName := if (fs.lookup "json").isSome then "json" else "json_format"
  let (level, json, _) ←
    both (optional "level" .warning (word Severity.ofName?) fs)
      (both (optional jsonName false bool fs) (known ["level", jsonName] fs))
  .ok (level, json)

def fieldNames : List String :=
  ["include", "exclude", "extensions", "nested_gitignore", "use_symbol_index", "preamble_window",
   "max_workers", "ignored_names", "hover_max_lines", "logging"]

def read : Reader Settings := fun d => do
  let fs ← fields d
  let (included, excluded, extensions, nested, useIndex, window, workers, ignored, hover, logging, _) ←
    both (optional "include" [] (list text) fs)
      (both (optional "exclude" [] (list text) fs)
      (both (optional "extensions" defaultExtensions readExtensions fs)
      (both (optional "nested_gitignore" false bool fs)
      (both (optional "use_symbol_index" true bool fs)
      (both (optional "preamble_window" 200 (greaterThan 0) fs)
      (both (optional "max_workers" 8 (atLeast 1) fs)
      (both (optional "ignored_names" [] readIgnoredNames fs)
      (both (optional "hover_max_lines" 20 (atLeast 1) fs)
      (both (optional "logging" (.warning, false) readLogging fs) (known fieldNames fs))))))))))
  .ok ⟨included, excluded, extensions, nested, useIndex, window, workers, ignored, hover, logging.1,
    logging.2⟩

def fileName : String := "xray.toml"

/-- What is in a settings file. Bytes that are no text are a failure of their own, and so are a number
that is too long and values too deep in one another for the stack. -/
def ofBytes (stack : Toml.Stack) (path : String) (bytes : List UInt8) : Except Failure Settings :=
  match Text.decodeStrict bytes with
  | .error (offset, broken) => .error (.notUnicode offset broken)
  | .ok chars =>
    match Toml.read stack chars with
    | .error .malformed => .error (.badSyntax path)
    | .error (.tooManyDigits count) => .error (.tooManyDigits count)
    | .error .tooDeep => .error .tooDeep
    | .ok d =>
      match read d with
      | .error issues => .error (.badSettings path issues)
      | .ok settings => .ok settings

/-- A project without a settings file has the defaults. -/
def load (stack : Toml.Stack) (fs : Files) (root : Path) : Except Failure Settings := do
  let path := root.join (Path.ofString fileName)
  if fs.isFile path then ofBytes stack path.toString (← fs.readBytes path) else .ok default

end Settings

end Callees

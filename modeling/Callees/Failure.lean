import Callees.Data.Issue
import Callees.Text.Classes
import Callees.Text.Printable
import Callees.Text.Utf8

namespace Callees

/-- Failures that the collaborators of a lookup report in their own words. -/
inductive Complaint
  | unavailable
  | timeout
  | value
  | runtime
  deriving Repr, DecidableEq

/-- What the operating system refuses. -/
inductive Refusal
  | notFound
  | isFolder
  | notFolder
  | tooManyLinks
  deriving Repr, DecidableEq

inductive Failure
  | reported (complaint : Complaint) (message : String)
  | lineOutOfRange (line : Int) (count : Nat)
  | noOpenDocument (uri : String)
  | outsideRoot (uri root : String)
  | noSourceFile (path : String)
  | refused (refusal : Refusal) (path : String)
  | linkLoop (path : String)
  | nullInPath
  | noHome
  | unsupportedScheme (scheme uri : String)
  | badAuthority
  | emptyIgnoreRule
  | unsafeAuthority (host : String)
  | unsupportedLanguage (uri : String)
  | noGrammar (grammar : String)
  | noWorkers
  | tooFewRuns (runs : Int)
  | integerTooWide
  | invalid (issues : List Issue)
  | badSyntax (path : String)
  | badSettings (path : String) (issues : List Issue)
  | notUnicode (offset : Nat) (broken : Text.Broken)
  | tooManyDigits (count : Nat)
  | tooDeep
  deriving Repr, DecidableEq

namespace Refusal

def number : Refusal → Nat
  | notFound => 2
  | notFolder => 20
  | isFolder => 21
  | tooManyLinks => 40

def words : Refusal → String
  | notFound => "No such file or directory"
  | notFolder => "Not a directory"
  | isFolder => "Is a directory"
  | tooManyLinks => "Too many levels of symbolic links"

def kind : Refusal → String
  | notFound => "FileNotFoundError"
  | notFolder => "NotADirectoryError"
  | isFolder => "IsADirectoryError"
  | tooManyLinks => "OSError"

end Refusal

namespace Failure

/-- The word for the kind of failure. -/
def kind : Failure → String
  | reported .unavailable _ | unsupportedLanguage _ | noGrammar _ => "ProviderUnavailable"
  | reported .timeout _ => "TimeoutError"
  | reported .value _ | nullInPath | unsupportedScheme .. | badAuthority | unsafeAuthority _
  | noWorkers
  | tooFewRuns _ | tooManyDigits _ => "ValueError"
  | reported .runtime _ | linkLoop _ | noHome => "RuntimeError"
  | lineOutOfRange .. | emptyIgnoreRule => "IndexError"
  | noOpenDocument _ | outsideRoot .. | noSourceFile _ => "FileNotFoundError"
  | refused refusal _ => refusal.kind
  | integerTooWide => "TypeError"
  | invalid _ => "ValidationError"
  | badSyntax _ | badSettings .. => "ConfigError"
  | notUnicode .. => "UnicodeDecodeError"
  | tooDeep => "RecursionError"

def message : Failure → String
  | reported _ message => message
  | lineOutOfRange line count =>
    "line " ++ toString line ++ " out of range (document has " ++ toString count ++ " lines)"
  | noOpenDocument uri => "No open document for " ++ uri
  | outsideRoot uri root => uri ++ " is outside the project root " ++ root
  | noSourceFile path => "No such source file: " ++ path
  | refused refusal path =>
    "[Errno " ++ toString refusal.number ++ "] " ++ refusal.words ++ ": " ++ Text.quoted path
  | linkLoop path => "Symlink loop from " ++ Text.quoted path
  | nullInPath => "embedded null byte"
  | noHome => "Could not determine home directory."
  | unsupportedScheme scheme uri => "Unsupported URI scheme '" ++ scheme ++ "' in " ++ uri
  | badAuthority => "Invalid IPv6 URL"
  | emptyIgnoreRule => "string index out of range"
  | unsafeAuthority host =>
    "netloc '" ++ host ++ "' contains invalid characters under NFKC normalization"
  | unsupportedLanguage uri => "Unsupported language for " ++ uri
  | noGrammar grammar => "No tree-sitter grammar for '" ++ grammar ++ "'"
  | noWorkers => "max_workers must be greater than 0"
  | tooFewRuns runs => "Idempotence needs at least two runs, got " ++ toString runs
  | integerTooWide => "Integer exceeds 64-bit range"
  | invalid issues => "; ".intercalate (issues.map Issue.message)
  | badSyntax path => "Invalid TOML in " ++ path
  | badSettings path _ => "Invalid config in " ++ path
  | notUnicode offset broken =>
    "'utf-8' codec can't decode " ++
      (match broken.bytes with
        | [b] => "byte 0x" ++ String.ofList (Text.hexDigits 2 b.toNat) ++ " in position " ++
            toString offset
        | bs => "bytes in position " ++ toString offset ++ "-" ++
            toString (offset + bs.length - 1)) ++
      ": " ++ broken.fault.words
  | tooManyDigits count =>
    "Exceeds the limit (" ++ toString Text.maxDigits ++
      " digits) for integer string conversion: value has " ++ toString count ++
      " digits; use sys.set_int_max_str_digits() to increase the limit"
  | tooDeep => "maximum recursion depth exceeded"

/-- Something that should be there is not. -/
def isAbsence : Failure → Bool
  | noOpenDocument _ | outsideRoot .. | noSourceFile _ | refused .notFound _ => true
  | _ => false

/-- Kind and message in one line, as logs have it. -/
def summary (f : Failure) : String := f.kind ++ ": " ++ f.message

end Failure

def invalidRule (rule : Rule) : Failure := .invalid [⟨[], .broken rule⟩]

def Position.check (field : String) (n : Int) : List Issue :=
  if n < 0 then [⟨[.field field], .notAtLeast⟩] else []

def Position.ofInts (line character : Int) : Except Failure Position :=
  match check "line" line ++ check "character" character with
  | [] => .ok ⟨line.toNat, character.toNat⟩
  | issues => .error (.invalid issues)

def Range.between (start stop : Position) : Except Failure Range :=
  match Range.between? start stop with
  | some r => .ok r
  | none => .error (invalidRule (.rangeOrder start stop))

theorem Range.between_ok {start stop : Position} (h : start ≤ stop) :
    Range.between start stop = .ok ⟨start, stop, h⟩ := by
  simp only [Range.between, Range.between?, dif_pos h]

def Range.ofInts (startLine startCharacter stopLine stopCharacter : Int) : Except Failure Range := do
  let start ← Position.ofInts startLine startCharacter
  let stop ← Position.ofInts stopLine stopCharacter
  Range.between start stop

end Callees

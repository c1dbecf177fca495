import Callees.Data.Reader
import Callees.Lookup
import Callees.Text.Classes
import Callees.Text.Printable

namespace Callees.Command

/-- Why arguments are refused. Only a cursor that is no number has a text of its own. -/
inductive Misuse
  | notPositive (argument value : String)
  | malformed
  /-- Not a mistake: help was asked for. -/
  | help
  deriving Repr, DecidableEq

namespace Misuse

def message? : Misuse → Option String
  | notPositive argument value =>
    some ("argument " ++ argument ++ ": expected a positive integer, got " ++ Text.quoted value)
  | _ => none

end Misuse

structure OptionSpec where
  name : String
  takesValue : Bool
  deriving Repr, DecidableEq

/-- What a command understands: its arguments in order, and its options. -/
structure Grammar where
  positionals : List String
  options : List OptionSpec
  deriving Repr, DecidableEq

inductive Token
  | plain (text : String)
  | option (spec : OptionSpec) (value : Option String)
  | unknown (text : String)
  /-- Two hyphens, after which nothing is an option. -/
  | divider
  deriving Repr, DecidableEq

/-- The part before the first equals sign, and the part after it. -/
def splitValue (cs : List Char) : List Char × Option String :=
  let name := cs.takeWhile (· != '=')
  match cs.drop name.length with
  | _ :: value => (name, some (String.ofList value))
  | [] => (name, none)

def isDigit (c : Char) : Bool := (Text.digit? c).isSome

/-- A number with a sign is no option. -/
def isNegativeNumber (cs : List Char) : Bool :=
  let body := if cs.getLast? = some '\n' then cs.dropLast else cs
  match body with
  | '-' :: ds =>
    let fraction := (ds.dropWhile isDigit).drop 1
    (!ds.isEmpty && ds.all isDigit) ||
      ((ds.dropWhile isDigit).head? == some '.' && !fraction.isEmpty && fraction.all isDigit)
  | _ => false

/-- The options that a word may mean. -/
def meanings (options : List OptionSpec) (cs : List Char) : List (OptionSpec × Option String) :=
  let (name, value) := splitValue cs
  match options.find? fun o => o.name.toList = cs with
  | some o => [(o, none)]
  | none =>
    match if value.isSome then options.find? fun o => o.name.toList = name else none with
    | some o => [(o, value)]
    | none =>
      if cs.take 2 = ['-', '-'] then
        (options.filter fun o => name.isPrefixOf o.name.toList).map (·, value)
      else
        (options.filter fun o => o.name.toList = cs.take 2).map
          (·, some (String.ofList (cs.drop 2)))

def token (options : List OptionSpec) (text : String) : Except Misuse Token :=
  let cs := text.toList
  if cs.head? ≠ some '-' ∨ cs = ['-'] then .ok (.plain text)
  else
    match meanings options cs with
    | [(o, value)] => .ok (.option o value)
    | _ :: _ :: _ => .error .malformed
    | [] =>
      .ok (if isNegativeNumber cs ∨ cs.contains ' ' then .plain text else .unknown text)

def tokens (options : List OptionSpec) : List String → Except Misuse (List Token)
  | [] => .ok []
  | text :: rest =>
    if text = "--" then .ok (.divider :: rest.map .plain)
    else do
      let first ← token options text
      let more ← tokens options rest
      .ok (first :: more)

/-- What has been read: values under the names of arguments and options, and what was left over. -/
structure Reading where
  values : List (String × String)
  leftOver : List String
  deriving Repr, DecidableEq

/-- Whole numbers in digits of any script, with a sign, and with single underscores between digits. -/
def digitsValue? : List Char → Option (List Nat)
  | [] => none
  | [c] => (Text.digit? c).map ([·])
  | c :: '_' :: cs => do some ((← Text.digit? c) :: (← digitsValue? cs))
  | c :: cs => do some ((← Text.digit? c) :: (← digitsValue? cs))

def integer? (s : String) : Option Int := do
  let cs := Text.trim Reader.isSpace s.toList
  let (negative, cs) := match cs with
    | '-' :: cs => (true, cs)
    | '+' :: cs => (false, cs)
    | cs => (false, cs)
  let ds ← digitsValue? cs
  if ds.length > Text.maxDigits then none
  else
    let n : Int := (ds.foldl (fun n d => 10 * n + d) 0 : Nat)
    some (if negative then -n else n)

/-- A number from one on. -/
def positive? (s : String) : Option Nat :=
  match integer? s with
  | some n => if 1 ≤ n then some n.toNat else none
  | none => none

/-- Checks a value when it is met. -/
def check (name value : String) : Except Misuse Unit :=
  if name = "line" ∨ name = "col" then
    if (positive? value).isSome then .ok () else .error (.notPositive name value)
  else if name = "--log-level" then
    if (Severity.ofName? value).isSome then .ok () else .error .malformed
  else .ok ()

def Reading.set (r : Reading) (name value : String) : Except Misuse Reading := do
  check name value
  .ok { r with values := (name, value) :: r.values }

def Reading.skip (r : Reading) (text : String) : Reading :=
  { r with leftOver := r.leftOver ++ [text] }

def helpOptions : List OptionSpec := [⟨"-h", false⟩, ⟨"--help", false⟩]

def OptionSpec.isHelp (o : OptionSpec) : Bool := helpOptions.contains o

/-- What comes of asking for help. The short option may be repeated within one word. -/
def helpMisuse (o : OptionSpec) : Option String → Misuse
  | none => .help
  | some more =>
    if o.name = "-h" ∧ more ≠ "" ∧ more.toList.all (· == 'h') then .help else .malformed

/-- Reads tokens one by one. `wanted` are the arguments still to come; `near` says whether a divider
would stand next to an argument that was taken. -/
def readTokens (wanted : List String) (near : Bool) (r : Reading) :
    List Token → Except Misuse (Reading × List String)
  | [] => .ok (r, wanted)
  | .plain text :: rest =>
    match wanted with
    | name :: more => do readTokens more true (← r.set name text) rest
    | [] => readTokens [] false (r.skip text) rest
  | .divider :: rest =>
    match near || (!wanted.isEmpty && !rest.isEmpty) with
    | true => readTokens wanted false r rest
    | false => readTokens wanted false (r.skip "--") rest
  | .unknown text :: rest => readTokens wanted false (r.skip text) rest
  | .option spec value :: rest =>
    if spec.isHelp then .error (helpMisuse spec value)
    else
      match spec.takesValue, value, rest with
      | true, some v, rest => do readTokens wanted false (← r.set spec.name v) rest
      | true, none, .plain v :: rest => do readTokens wanted false (← r.set spec.name v) rest
      | true, none, _ => .error .malformed
      | false, none, rest => do readTokens wanted false (← r.set spec.name "") rest
      | false, some _, _ => .error .malformed

def read (g : Grammar) (arguments : List String) : Except Misuse Reading := do
  let ts ← tokens g.options arguments
  let (r, missing) ← readTokens g.positionals false ⟨[], []⟩ ts
  if missing.isEmpty then .ok r else .error .malformed

def Reading.value? (r : Reading) (name : String) : Option String := r.values.lookup name

end Callees.Command

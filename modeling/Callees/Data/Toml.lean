import Callees.Data.Toml.Scalar

namespace Callees.Toml

/-- One name of a key: bare, or in quotes of either kind on one line. -/
def keyPart? (cs : List Char) : Option (String × List Char) :=
  match cs with
  | '"' :: cs => (basic? false (cs.length + 1) cs).map fun (s, rest) => (String.ofList s, rest)
  | '\'' :: cs => (literal? false cs).map fun (s, rest) => (String.ofList s, rest)
  | _ =>
    let bare := cs.takeWhile isBareKey
    if bare.isEmpty then none else some (String.ofList bare, cs.drop bare.length)

/-- Names with points between them, read in at most `n` steps. -/
def key? : Nat → Scan (List String)
  | 0, _ => none
  | n + 1, cs => do
    let (part, rest) ← keyPart? cs
    match skipSpace rest with
    | '.' :: rest =>
      let (parts, rest) ← key? n (skipSpace rest)
      some (part :: parts, rest)
    | rest => some ([part], rest)

/-- Blanks and comments between the items of an array. -/
def skipGaps? : Nat → List Char → Option (List Char)
  | 0, _ => none
  | n + 1, cs =>
    match cs.dropWhile fun c => Text.isSpaceOrTab c || c == '\n' with
    | '#' :: rest =>
      let comment := rest.takeWhile (· != '\n')
      if comment.any fun c => isControl c && c != '\t' then none
      else skipGaps? n (rest.drop comment.length)
    | rest => some rest

def gaps? (cs : List Char) : Option (List Char) := skipGaps? (cs.length + 1) cs

def replace (name : String) (d : Data) (fs : List (String × Data)) : List (String × Data) :=
  fs.map fun f => if f.1 = name then (name, d) else f

/-- Changes the table under a path of names, making tables that are not there. An array of tables
stands for its last one, if `throughArrays`. -/
def updateAt (throughArrays : Bool)
    (change : List (String × Data) → Option (List (String × Data))) :
    List String → List (String × Data) → Option (List (String × Data))
  | [], fs => change fs
  | name :: path, fs =>
    match fs.lookup name with
    | none => (updateAt throughArrays change path []).map fun t => fs ++ [(name, .record t)]
    | some (.record inner) =>
      (updateAt throughArrays change path inner).map fun t => replace name (.record t) fs
    | some (.list items) =>
      match throughArrays, items.getLast? with
      | true, some (.record inner) =>
        (updateAt throughArrays change path inner).map fun t =>
          replace name (.list (items.dropLast ++ [.record t])) fs
      | _, _ => none
    | some _ => none

def addField (name : String) (d : Data) (fs : List (String × Data)) :
    Option (List (String × Data)) :=
  if (fs.lookup name).isSome then none else some (fs ++ [(name, d)])

def isCompound : Data → Bool
  | .list _ | .record _ => true
  | _ => false

/-- All but the last name of a key, and the last. -/
def splitKey (key : List String) : List String × String := (key.dropLast, key.getLast?.getD "")

/-- Enters a value into a table written in braces. Values given before it cannot be added to. -/
def addInline (key : List String) (d : Data) (closed : List (List String))
    (fs : List (String × Data)) : Option (List (String × Data)) :=
  if closed.any (·.isPrefixOf key) then none
  else
    let (path, name) := splitKey key
    updateAt false (addField name d) path fs

def after? (word : String) (cs : List Char) : Option (List Char) :=
  JsonReader.after? word.toList cs

/-- A value that is no array and no table. -/
def scalar? : Scan (Except Fault Data) := fun cs =>
  match cs with
  | '"' :: _ | '\'' :: _ => (string? cs).map fun (s, rest) => (.ok (.text s), rest)
  | _ =>
    match after? "true" cs, after? "false" cs with
    | some rest, _ => some (.ok (.bool true), rest)
    | _, some rest => some (.ok (.bool false), rest)
    | _, _ =>
      match moment? cs with
      | some (m, rest) => m.map fun m => (.ok (.moment m), rest)
      | none =>
        match number? cs with
        | some found => some found
        | none => (special? cs).map fun (d, rest) => (.ok d, rest)

/-- Reading that tells why it fails. -/
abbrev Reading (α : Type) := List Char → Except Fault (α × List Char)

/-- What is missing makes a text malformed. -/
def present {α : Type} : Option α → Except Fault α
  | some a => .ok a
  | none => .error .malformed

/-- Whether the stack ends at a text where so many calls are open: in the call that is made there, or in
a scanner that it calls. -/
abbrev Stack := Nat → List Char → Bool

namespace Stack

/-- A stack that holds so many calls. -/
def holding (calls : Nat) : Stack := fun opened _ => calls ≤ opened

/-- The stack of a program that is only a few calls deep itself. -/
def usual : Stack := holding 990

def enter (stack : Stack) (opened : Nat) (cs : List Char) : Except Fault Unit :=
  if stack opened cs then .error .tooDeep else .ok ()

end Stack

mutual

/-- A value, read in at most `n` steps while so many calls are open. -/
def value (stack : Stack) : Nat → Nat → Reading Data
  | 0, _, _ => .error .malformed
  | n + 1, opened, cs => do
    stack.enter opened cs
    match cs with
    | '[' :: rest =>
      match ← present (gaps? rest) with
      | ']' :: rest => .ok (.list [], rest)
      | rest =>
        let (ds, rest) ← items stack n (opened + 1) rest
        .ok (.list ds, rest)
    | '\x7b' :: rest =>
      match skipSpace rest with
      | '\x7d' :: rest => .ok (.record [], rest)
      | rest =>
        let (fs, rest) ← pairs stack n (opened + 1) [] [] rest
        .ok (.record fs, rest)
    | cs =>
      let (found, rest) ← present (scalar? cs)
      .ok (← found, rest)
termination_by structural n => n

/-- The items of an array; a comma may follow the last. -/
def items (stack : Stack) : Nat → Nat → Reading (List Data)
  | 0, _, _ => .error .malformed
  | n + 1, opened, cs => do
    stack.enter opened cs
    let (d, rest) ← value stack n (opened + 1) cs
    match ← present (gaps? rest) with
    | ']' :: rest => .ok ([d], rest)
    | ',' :: rest =>
      match ← present (gaps? rest) with
      | ']' :: rest => .ok ([d], rest)
      | rest =>
        let (ds, rest) ← items stack n opened rest
        .ok (d :: ds, rest)
    | _ => .error .malformed
termination_by structural n => n

/-- The pairs of a table in braces, added to those so far; no comma follows the last. -/
def pairs (stack : Stack) :
    Nat → Nat → List (String × Data) → List (List String) → Reading (List (String × Data))
  | 0, _, _, _, _ => .error .malformed
  | n + 1, opened, fs, closed, cs => do
    stack.enter opened cs
    let ((key, d), rest) ← pair stack n (opened + 1) cs
    let fs ← present (addInline key d closed fs)
    match skipSpace rest with
    | '\x7d' :: rest => .ok (fs, rest)
    | ',' :: rest =>
      pairs stack n opened fs (if isCompound d then key :: closed else closed) (skipSpace rest)
    | _ => .error .malformed
termination_by structural n => n

/-- A key, an equals sign and a value. -/
def pair (stack : Stack) : Nat → Nat → Reading (List String × Data)
  | 0, _, _ => .error .malformed
  | n + 1, opened, cs => do
    stack.enter opened cs
    let (key, rest) ← present (key? (cs.length + 1) cs)
    match rest with
    | '=' :: rest =>
      let (d, rest) ← value stack n (opened + 1) (skipSpace rest)
      .ok ((key, d), rest)
    | _ => .error .malformed
termination_by structural n => n

end

/-- A document as read so far: its data, the heading in force, the tables that have been declared,
those that the next heading closes, and the values that stay as they were written. -/
structure State where
  fields : List (String × Data)
  heading : List String
  declared : List (List String)
  pending : List (List String)
  closed : List (List String)

def State.initial : State := ⟨[], [], [], [], []⟩

namespace State

def isClosed (s : State) (key : List String) : Bool := s.closed.any (·.isPrefixOf key)

/-- The tables on the way to a dotted key count as declared from the next heading on. -/
def onTheWay (heading key : List String) : List (List String) :=
  (List.range (key.length - 1)).map fun i => heading ++ key.take (i + 1)

def addPair (s : State) (key : List String) (d : Data) : Option State :=
  let way := onTheWay s.heading key
  let (path, name) := splitKey key
  if way.any s.declared.contains ∨ s.isClosed (s.heading ++ path) then none
  else
    (updateAt true (addField name d) (s.heading ++ path) s.fields).map fun fs =>
      { s with
        fields := fs
        pending := way ++ s.pending
        closed := if isCompound d then (s.heading ++ key) :: s.closed else s.closed }

def settlePending (s : State) : State :=
  { s with declared := s.pending ++ s.declared, pending := [] }

def openTable (s : State) (key : List String) : Option State :=
  let s := s.settlePending
  if s.declared.contains key ∨ s.isClosed key then none
  else
    (updateAt true some key s.fields).map fun fs =>
      { s with fields := fs, heading := key, declared := key :: s.declared }

def appendTable (name : String) (fs : List (String × Data)) : Option (List (String × Data)) :=
  match fs.lookup name with
  | none => some (fs ++ [(name, .list [.record []])])
  | some (.list items) => some (replace name (.list (items ++ [.record []])) fs)
  | some _ => none

/-- A further table of an array: what was declared below the one before is free again. -/
def openItem (s : State) (key : List String) : Option State :=
  let s := s.settlePending
  if s.isClosed key then none
  else
    let (path, name) := splitKey key
    (updateAt true (appendTable name) path s.fields).map fun fs =>
      { s with
        fields := fs
        heading := key
        declared := key :: s.declared.filter fun k => !key.isPrefixOf k
        closed := s.closed.filter fun k => !key.isPrefixOf k }

end State

/-- What follows a statement: blanks, perhaps a comment, and the end of the line. -/
def endOfLine? (cs : List Char) : Option (List Char) :=
  let rest := match skipSpace cs with
    | '#' :: rest =>
      let comment := rest.takeWhile (· != '\n')
      if comment.any fun c => isControl c && c != '\t' then none else some (rest.drop comment.length)
    | rest => some rest
  match rest with
  | some [] => some []
  | some ('\n' :: rest) => some rest
  | _ => none

/-- What follows the bracket that begins a heading. -/
def heading? (s : State) : Scan State
  | '[' :: rest => do
    let (key, rest) ← key? (rest.length + 1) (skipSpace rest)
    let s ← s.openItem key
    match rest with
    | ']' :: ']' :: rest => some (s, rest)
    | _ => none
  | rest => do
    let (key, rest) ← key? (rest.length + 1) (skipSpace rest)
    let s ← s.openTable key
    match rest with
    | ']' :: rest => some (s, rest)
    | _ => none

/-- One line, or several where a value goes on. -/
def statement (stack : Stack) (s : State) : Reading State := fun cs =>
  match cs with
  | '[' :: rest => present (heading? s rest)
  | '#' :: _ | '\n' :: _ => .ok (s, cs)
  | _ => do
    let ((key, d), rest) ← pair stack (2 * cs.length + 2) 0 cs
    .ok (← present (s.addPair key d), rest)

/-- All statements, at most `n`. -/
def statements (stack : Stack) : Nat → State → List Char → Except Fault State
  | 0, _, _ => .error .malformed
  | n + 1, s, cs =>
    match skipSpace cs with
    | [] => .ok s
    | cs => do
      let (s, rest) ← statement stack s cs
      let rest ← present (endOfLine? rest)
      if rest.isEmpty then .ok s else statements stack n s rest

def unifyBreaks : List Char → List Char
  | [] => []
  | '\r' :: '\n' :: cs => '\n' :: unifyBreaks cs
  | c :: cs => c :: unifyBreaks cs

/-- The data of a document, or the first fault of it. -/
def read (stack : Stack) (cs : List Char) : Except Fault Data :=
  let cs := unifyBreaks cs
  (statements stack (cs.length + 1) .initial cs).map fun s => .record s.fields

end Callees.Toml

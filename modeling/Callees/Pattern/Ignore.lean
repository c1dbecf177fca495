import Callees.Failure
import Callees.Pattern.Glob
import Callees.Text.Lines

namespace Callees

structure IgnoreRule where
  negated : Bool
  pattern : Pattern

namespace IgnoreRule
open Pattern

/-- Two or more stars right after a character other than a slash count as one. -/
def oneStarAfter : List Char → List Char
  | [] => []
  | c :: cs =>
    let stars := cs.takeWhile (· == '*')
    if c ≠ '/' ∧ 2 ≤ stars.length then c :: '*' :: oneStarAfter (cs.dropWhile (· == '*'))
    else c :: oneStarAfter cs
termination_by cs => cs.length
decreasing_by
  · have := (List.dropWhile_sublist (· == '*') (l := cs)).length_le
    simp only [List.length_cons]
    omega
  · simp

/-- Two stars right before a character other than a slash count as one. -/
def oneStarBefore : List Char → List Char
  | '*' :: '*' :: c :: cs =>
    if c = '/' then '*' :: '*' :: c :: oneStarBefore cs else '*' :: c :: oneStarBefore cs
  | c :: cs => c :: oneStarBefore cs
  | [] => []

/-- Drops spaces from the end, given backwards, down to one that is escaped; escapes before spaces go.
The first two characters stay. -/
def trimSpaces (strip : Bool) : List Char → List Char
  | ' ' :: b :: c :: cs =>
    if b = '\\' then ' ' :: trimSpaces false (c :: cs)
    else if strip then trimSpaces strip (b :: c :: cs)
    else ' ' :: trimSpaces strip (b :: c :: cs)
  | cs => cs

def notSlash : Pattern := one (· != '/')

/-- The parts of a rule, read in at most `n` steps. -/
def parts : Nat → List Char → Except Failure (List Pattern)
  | 0, _ => .ok []
  | _ + 1, [] => .ok []
  | n + 1, '*' :: '*' :: '/' :: cs =>
    (parts n cs).map (optional (next restOfLine (char '/')) :: ·)
  | n + 1, '*' :: '*' :: cs => (parts n cs).map (restOfLine :: ·)
  | n + 1, '*' :: cs => (parts n cs).map (many notSlash :: ·)
  | n + 1, '?' :: cs => (parts n cs).map (notSlash :: ·)
  | n + 1, '[' :: cs =>
    match Glob.bracket? cs with
    | none => (parts n cs).map (char '[' :: ·)
    | some (negated, inner, rest) =>
      let inner := inner.filter (· != '/')
      if inner.isEmpty ∧ !negated then .error .emptyIgnoreRule
      else
        let ss := Glob.spans inner
        (parts n rest).map (one (fun c => Glob.inSpans ss c != negated) :: ·)
  | n + 1, c :: cs => (parts n cs).map (char c :: ·)

def dropSlash : List Char → List Char
  | '/' :: cs => cs
  | cs => cs

/-- The text of a rule brought down to what is matched, and whether it is tied to its folder. -/
def core (cs : List Char) (anchored : Bool) : Except Failure (List Char × Bool) := do
  let cs := dropSlash cs
  let (cs, anchored) := match cs with
    | '*' :: '*' :: rest => (rest, false)
    | cs => (cs, anchored)
  if cs.isEmpty then .error .emptyIgnoreRule
  let cs := dropSlash cs
  if cs.isEmpty then .error .emptyIgnoreRule
  let cs := (dropSlash cs.reverse).reverse
  let cs ← match cs with
    | [] | ['\\'] => .error .emptyIgnoreRule
    | '\\' :: c :: rest => .ok (if c = '#' ∨ c = '!' then c :: rest else '\\' :: c :: rest)
    | cs => .ok cs
  .ok ((trimSpaces true cs.reverse).reverse, anchored)

/-- The rule that a line holds, if it is neither blank nor a comment. -/
def ofLine? (line : List Char) : Except Failure (Option IgnoreRule) :=
  if line.all Text.isBlank ∨ line.head? = some '#' then .ok none
  else do
    let (negated, cs) := match line with
      | '!' :: cs => (true, cs)
      | cs => (false, cs)
    let cs := oneStarBefore (oneStarAfter cs)
    if Text.trimRight Text.isBlank cs = ['/'] then .ok none
    else if cs.isEmpty then .error .emptyIgnoreRule
    else
      let folder := cs.getLast? == some '/'
      let (text, anchored) ← core cs (cs.dropLast.contains '/')
      let body ← parts (text.length + 1) text
      let start := if anchored then atStart else either atStart (char '/')
      let stop :=
        if !folder then atLastBreak
        else if negated then next (char '/') atLastBreak
        else either atLastBreak (char '/')
      .ok (some ⟨negated, all (start :: body ++ [stop])⟩)

def matchesPath (r : IgnoreRule) (path : List Char) : Bool := (r.pattern.search path).isSome

end IgnoreRule

/-- The rules of one ignore file, for the files below its folder. -/
structure IgnoreFile where
  folder : List String
  rules : List IgnoreRule

namespace IgnoreFile

def ofChars (folder : List String) (cs : List Char) : Except Failure IgnoreFile := do
  let found ← (Text.splitOnChar '\n' cs).mapM IgnoreRule.ofLine?
  .ok ⟨folder, found.filterMap id⟩

/-- The last rule that matches decides; a negated one keeps the file. -/
def ignores (f : IgnoreFile) (path : List Char) : Bool :=
  match f.rules.reverse.find? (·.matchesPath path) with
  | some rule => !rule.negated
  | none => false

end IgnoreFile

end Callees

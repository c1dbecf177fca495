import Callees.Failure
import Callees.Path
import Callees.Text.Classes
import Callees.Text.Utf8

namespace Callees.Uri

def isSchemeChar (c : Char) : Bool := c.isAlphanum || c == '+' || c == '-' || c == '.'

/-- Leading controls and spaces do not count, nor does a tab or a line break anywhere. -/
def clean (cs : List Char) : List Char :=
  (cs.dropWhile (·.toNat ≤ 0x20)).filter fun c => c != '\t' && c != '\n' && c != '\r'

/-- The scheme in lower case, and what follows its colon. Without a scheme all of it follows. -/
def splitScheme (cs : List Char) : String × List Char :=
  let word := cs.takeWhile (· != ':')
  match cs.drop word.length, word with
  | _ :: rest, c :: _ =>
    if c.isAlpha ∧ word.all isSchemeChar then (String.ofList (word.map Char.toLower), rest)
    else ("", cs)
  | _, _ => ("", cs)

/-- Characters that compatibility forms turn into one of `/?#@:`. -/
def disguised : List Nat :=
  [0x2047, 0x2048, 0x2049, 0x2100, 0x2101, 0x2105, 0x2106, 0x2A74, 0xFE13, 0xFE16, 0xFE55, 0xFE56,
   0xFE5F, 0xFE6B, 0xFF03, 0xFF0F, 0xFF1A, 0xFF1F, 0xFF20]

/-- What follows the authority, if there is one. -/
def afterAuthority (cs : List Char) : Except Failure (List Char) :=
  match cs with
  | '/' :: '/' :: rest =>
    let isEnd := fun c => c == '/' || c == '?' || c == '#'
    let host := rest.takeWhile (!isEnd ·)
    if host.contains '[' != host.contains ']' then .error .badAuthority
    else if host.any (disguised.contains ·.toNat) then
      .error (.unsafeAuthority (String.ofList host))
    else .ok (rest.drop host.length)
  | _ => .ok cs

/-- The part before a query or a fragment. -/
def pathPart (cs : List Char) : List Char :=
  (cs.takeWhile (· != '#')).takeWhile (· != '?')

/-- The characters that `%XX` escapes stand for. `held` are the bytes, backwards, that have been read
since the last character beyond ASCII. -/
def unescapeFrom (held : List UInt8) : List Char → List Char
  | [] => Text.decode held.reverse
  | c :: cs =>
    let plain :=
      if c.toNat < 0x80 then unescapeFrom (UInt8.ofNat c.toNat :: held) cs
      else Text.decode held.reverse ++ c :: unescapeFrom [] cs
    match c, cs with
    | '%', a :: b :: rest =>
      match Text.hexValue? a, Text.hexValue? b with
      | some x, some y => unescapeFrom (UInt8.ofNat (16 * x + y) :: held) rest
      | _, _ => plain
    | _, _ => plain

def unescape (cs : List Char) : List Char := unescapeFrom [] cs

def isPlain (b : UInt8) : Bool :=
  let c := Char.ofNat b.toNat
  c.isAlphanum || c == '_' || c == '.' || c == '-' || c == '~' || c == '/'

def hexDigit (n : Nat) : Char := (Nat.digitChar (n % 16)).toUpper

def escapeByte (b : UInt8) : List Char :=
  if isPlain b then [Char.ofNat b.toNat] else ['%', hexDigit (b.toNat / 16), hexDigit b.toNat]

def escape (cs : List Char) : List Char := (Text.encode cs).flatMap escapeByte

/-- The path that a document's name stands for. -/
def toPath (uri : String) : Except Failure Path := do
  let (scheme, rest) := splitScheme (clean uri.toList)
  let rest ← afterAuthority rest
  if scheme = "" then .ok (Path.ofString uri)
  else if scheme = "file" then .ok (Path.ofString (String.ofList (unescape (pathPart rest))))
  else .error (.unsupportedScheme scheme uri)

/-- The name of the document at a path. -/
def ofPath (p : Path) : String := "file://" ++ String.ofList (escape p.toString.toList)

end Callees.Uri

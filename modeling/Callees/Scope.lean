import Callees.Block
import Callees.Document
import Callees.Failure
import Callees.Lookup
import Callees.Scope.Header
import Callees.Symbol

namespace Callees

structure Scope where
  range : Range
  name : String
  deriving Repr, DecidableEq

namespace Scope

def anonymous : String := "(anonymous)"

def spanning (d : Document) (start stop : Nat) : Except Failure Range :=
  Range.between (d.positionAt start) (d.positionAt stop)

/-- The text of at most `window` characters right before offset `s`, and where that text starts. -/
def preamble (window : Int) (text : List Char) (s : Nat) : Nat × List Char :=
  let base := (s - window).toNat
  (base, Document.slice text base s)

/-- The header of the block that opens at `s`, if it is a function, with the offset at which the header
starts. -/
def headerOf (window : Int) (text : List Char) (s : Nat) : Option (Nat × String) :=
  let (base, before) := preamble window text s
  (Header.find? before).map fun found => (base + found.start, found.name.getD anonymous)

/-- A block, given by its braces, that is a function: where its header starts, its name and where it
closes. -/
def functionOf (window : Int) (text : List Char) (block : Nat × Nat) :
    Option (Nat × String × Nat) :=
  (headerOf window text block.1).map fun header => (header.1, header.2, block.2)

/-- The innermost block around the cursor that has a function's header. Blocks of other kinds are
passed over. -/
def ofBraces (window : Int) (d : Document) (p : Position) : Except Failure (Option Scope) :=
  let o := d.offsetAt p
  match (Block.outward d.chars o o).findSome? (functionOf window d.chars) with
  | none => .ok none
  | some (start, name, e) =>
    (spanning d start (e + 1)).map fun range => some ⟨range, name⟩

def ofOutline (symbols : List Outline) (p : Position) : Option Scope :=
  (Outline.tightest? p symbols).map fun o => ⟨o.range, o.name⟩

end Scope

/-- How scopes are found: an outline if there is one, and how many characters before a brace are
searched for a header. -/
structure Locator (σ : Type) where
  outline : Option (Document → Lookup σ (List Outline))
  window : Int

namespace Locator

variable {σ : Type}

def outlineTier (outline : Document → Lookup σ (List Outline)) :
    Tier σ (Document × Position) Scope :=
  ⟨"outline", true, fun (d, p) => do
    let symbols ← outline d
    pure (Scope.ofOutline symbols p)⟩

def bracesTier (window : Int) : Tier σ (Document × Position) Scope :=
  ⟨"braces", false, fun (d, p) => Lookup.ofResult (Scope.ofBraces window d p)⟩

def tiers (l : Locator σ) : List (Tier σ (Document × Position) Scope) :=
  l.outline.toList.map outlineTier ++ [bracesTier l.window]

def locate (l : Locator σ) (d : Document) (p : Position) : Lookup σ (Option Scope) :=
  Tier.firstHit "enclosing_scope" l.tiers (d, p)

end Locator

end Callees

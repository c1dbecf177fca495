namespace Callees

structure Position where
  line : Nat
  character : Nat
  deriving Repr, DecidableEq, Inhabited

namespace Position

/-- Positions are ordered as they are read: by line, then by character. -/
def before (p q : Position) : Bool :=
  p.line < q.line || (p.line == q.line && p.character < q.character)

def notAfter (p q : Position) : Bool := !q.before p

instance : LT Position := ⟨fun p q => p.before q = true⟩
instance : LE Position := ⟨fun p q => p.notAfter q = true⟩
instance (p q : Position) : Decidable (p < q) := inferInstanceAs (Decidable (_ = true))
instance (p q : Position) : Decidable (p ≤ q) := inferInstanceAs (Decidable (_ = true))

theorem lt_iff {p q : Position} :
    p < q ↔ p.line < q.line ∨ (p.line = q.line ∧ p.character < q.character) := by
  show p.before q = true ↔ _
  simp [before]

theorem le_iff {p q : Position} :
    p ≤ q ↔ p.line < q.line ∨ (p.line = q.line ∧ p.character ≤ q.character) := by
  show (!q.before p) = true ↔ _
  simp [before]
  omega

theorem le_trans {p q r : Position} (h : p ≤ q) (h' : q ≤ r) : p ≤ r := by
  rw [le_iff] at *
  omega

theorem lt_of_le_of_lt {p q r : Position} (h : p ≤ q) (h' : q < r) : p < r := by
  rw [le_iff] at h
  rw [lt_iff] at *
  omega

theorem lt_of_lt_of_le {p q r : Position} (h : p < q) (h' : q ≤ r) : p < r := by
  rw [le_iff] at h'
  rw [lt_iff] at *
  omega

end Position

/-- A span of a document. It never ends before it starts. -/
@[ext]
structure Range where
  start : Position
  stop : Position
  ordered : start ≤ stop
  deriving Repr, DecidableEq

namespace Range

def between? (start stop : Position) : Option Range :=
  if h : start ≤ stop then some ⟨start, stop, h⟩ else none

/-- The span of `width` characters from `p` on, all on one line. -/
def onLine (p : Position) (width : Nat) : Range :=
  ⟨p, ⟨p.line, p.character + width⟩, Position.le_iff.mpr (Or.inr ⟨rfl, Nat.le_add_right ..⟩)⟩

/-- The start belongs to the span and the end does not. -/
def contains (r : Range) (p : Position) : Bool := r.start.notAfter p && p.before r.stop

def lineSpan (r : Range) : Nat := r.stop.line - r.start.line

/-- The difference of the columns, which is negative where a span ends further left. -/
def columnSpan (r : Range) : Int := (r.stop.character : Int) - r.start.character

/-- Lines count before columns when two spans are compared by size. -/
def smallerThan (a b : Range) : Bool :=
  a.lineSpan < b.lineSpan || (a.lineSpan == b.lineSpan && a.columnSpan < b.columnSpan)

end Range

end Callees

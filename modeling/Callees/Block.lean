namespace Callees.Block

/-- What lies before the first unmatched `{`. The text is given backwards, from the character before
the starting point. -/
def openBefore (depth : Nat) : List Char → Option (List Char)
  | [] => none
  | c :: cs =>
    if c = '}' then openBefore (depth + 1) cs
    else if c = '{' then
      match depth with
      | 0 => some cs
      | d + 1 => openBefore d cs
    else openBefore depth cs

/-- The offset of the first unmatched `}`, where the text starts at offset `o`. -/
def closeAfter (depth : Nat) (o : Nat) : List Char → Option Nat
  | [] => none
  | c :: cs =>
    if c = '{' then closeAfter (depth + 1) (o + 1) cs
    else if c = '}' then
      match depth with
      | 0 => some o
      | d + 1 => closeAfter d (o + 1) cs
    else closeAfter depth (o + 1) cs

/-- Offset of the unmatched `{` that opens the block around `offset`. -/
def start? (text : List Char) (offset : Int) : Option Nat :=
  (openBefore 0 (text.take offset.toNat).reverse).map List.length

/-- Offset of the first `}` at or after `offset` that nothing after `offset` opens. -/
def stop? (text : List Char) (offset : Int) : Option Nat :=
  closeAfter 0 offset.toNat (text.drop offset.toNat)

theorem openBefore_shorter {depth : Nat} {cs before : List Char}
    (h : openBefore depth cs = some before) : before.length < cs.length := by
  induction cs generalizing depth with
  | nil => simp [openBefore] at h
  | cons c cs ih =>
    simp only [openBefore] at h
    split at h
    · exact Nat.lt_succ_of_lt (ih h)
    · split at h
      · cases depth with
        | zero =>
          cases h
          exact Nat.lt_succ_self _
        | succ d => exact Nat.lt_succ_of_lt (ih h)
      · exact Nat.lt_succ_of_lt (ih h)

theorem start?_lt {text : List Char} {o s : Nat} (h : start? text o = some s) : s < o := by
  obtain ⟨before, hb, rfl⟩ := Option.map_eq_some_iff.mp h
  have hl := openBefore_shorter hb
  simp only [List.length_reverse, List.length_take, Int.toNat_natCast] at hl
  omega

/-- The blocks around a place, innermost first, as the offsets of their braces. Each is found from the
one inside it, by scanning on from both of its braces. -/
def outward (text : List Char) (opens closes : Nat) : List (Nat × Nat) :=
  match h : start? text opens, stop? text closes with
  | some s, some e => (s, e) :: outward text s (e + 1)
  | _, _ => []
termination_by opens
decreasing_by exact start?_lt h

/-- A balanced block's lines, and the number of the line that closes it. -/
structure Body where
  lines : List (List Char)
  endLine : Nat
  deriving Repr, DecidableEq

namespace Body

def content (b : Body) : String :=
  String.ofList (List.intercalate ['\n'] b.lines)

end Body

/-- Braces counted so far; `opened` once there was a `{`. -/
structure Depth where
  level : Int
  opened : Bool
  deriving Repr, DecidableEq

/-- The depth after a line, or nothing if the block closes on that line. -/
def Depth.afterLine (d : Depth) : List Char → Option Depth
  | [] => some d
  | c :: cs =>
    if c = '{' then Depth.afterLine ⟨d.level + 1, true⟩ cs
    else if c = '}' then
      if d.opened ∧ d.level = 1 then none else Depth.afterLine ⟨d.level - 1, d.opened⟩ cs
    else Depth.afterLine d cs

/-- Collects lines from number `i` on, until the block closes. -/
def bodyFrom (d : Depth) (i : Nat) : List (List Char) → Option Body
  | [] => none
  | line :: rest =>
    match d.afterLine line with
    | none => some ⟨[line], i⟩
    | some d' => (bodyFrom d' (i + 1) rest).map fun b => ⟨line :: b.lines, b.endLine⟩

/-- The block that opens on line `start` or later: whole lines, from `start` to the one where the
depth first returns to zero after a `{`. -/
def body? (lines : List (List Char)) (start : Int) : Option Body :=
  if start < 0 then none else bodyFrom ⟨0, false⟩ start.toNat (lines.drop start.toNat)

end Callees.Block

import Callees.Number.Binary64

namespace Callees.Binary64

/-- `digits * 10 ^ scale`. -/
structure Decimal where
  digits : Nat
  scale : Int
  deriving Repr, DecidableEq

/-- Ends of the interval and the number itself, in quarters of the last place. -/
def quarters (x : Binary64) : Nat × Nat × Nat :=
  let m := 4 * x.significand
  (if x.fraction = 0 ∧ 1 < x.exponentField then m - 1 else m - 2, m, m + 2)

/-- Whether `digits * 10 ^ scale` is within the interval, whose ends count for an even significand. -/
def readsBack (x : Binary64) (d : Decimal) : Bool :=
  let (low, _, high) := x.quarters
  let unit := x.exponent - 2
  let side := d.digits * power 10 d.scale.toNat * power 2 (-unit).toNat
  let other := power 2 unit.toNat * power 10 (-d.scale).toNat
  if x.significand % 2 = 0 then low * other ≤ side ∧ side ≤ high * other
  else low * other < side ∧ side < high * other

/-- The multiples of `10 ^ scale` on both sides of `x`, the nearer one first. -/
def neighbours (x : Binary64) (scale : Int) : List Decimal :=
  let unit := x.exponent - 2
  let num := x.quarters.2.1 * power 2 unit.toNat * power 10 (-scale).toNat
  let den := power 2 (-unit).toNat * power 10 scale.toNat
  let below := num / den
  if 2 * (num % den) < den ∨ (2 * (num % den) = den ∧ below % 2 = 0) then
    [⟨below, scale⟩, ⟨below + 1, scale⟩]
  else [⟨below + 1, scale⟩, ⟨below, scale⟩]

/-- Tries the scales `top`, `top - 1`, … for `n` steps. -/
def shortestFrom (x : Binary64) : Nat → Int → Decimal
  | 0, top => ⟨0, top⟩
  | n + 1, top =>
    match (x.neighbours top).find? fun d => 0 < d.digits && x.readsBack d with
    | some d => d
    | none => shortestFrom x n (top - 1)

/-- The shortest decimal of the size of a finite number other than zero. -/
def shortest (x : Binary64) : Decimal := shortestFrom x 700 310

/-- Where a decimal is written without an exponent: if its first digit stands for a power of ten from
`plainFrom` to below `plainBelow`. Otherwise the exponent has at least `exponentDigits` digits. -/
structure Layout where
  plainFrom : Int
  plainBelow : Int
  exponentDigits : Nat

def padLeft (width : Nat) (cs : List Char) : List Char :=
  List.replicate (width - cs.length) '0' ++ cs

def Layout.decimal (layout : Layout) (d : Decimal) : List Char :=
  let digits := Nat.toDigits 10 d.digits
  let first : Int := d.scale + digits.length - 1
  if layout.plainFrom ≤ first ∧ first < layout.plainBelow then
    if 0 ≤ d.scale then digits ++ List.replicate d.scale.toNat '0' ++ ['.', '0']
    else if 0 ≤ first then
      digits.take (first.toNat + 1) ++ '.' :: digits.drop (first.toNat + 1)
    else '0' :: '.' :: List.replicate (-first - 1).toNat '0' ++ digits
  else
    let mantissa := match digits with
      | [c] => [c]
      | c :: cs => c :: '.' :: cs
      | [] => []
    mantissa ++ 'e' :: (if first < 0 then '-' else '+') ::
      padLeft layout.exponentDigits (Nat.toDigits 10 first.natAbs)

/-- The text of a finite number. Zero keeps its sign. -/
def Layout.write (layout : Layout) (x : Binary64) : List Char :=
  let size := if x.significand = 0 then ['0', '.', '0'] else layout.decimal x.shortest
  if x.negative then '-' :: size else size

end Callees.Binary64

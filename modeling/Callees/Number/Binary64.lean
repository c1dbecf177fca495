namespace Callees

structure Binary64 where
  bits : UInt64
  deriving Repr, DecidableEq, Inhabited

namespace Binary64

/-- Powers of whole numbers. -/
abbrev power (base n : Nat) : Nat := Nat.pow base n

def negative (x : Binary64) : Bool := power 2 63 ≤ x.bits.toNat

def exponentField (x : Binary64) : Nat := x.bits.toNat / power 2 52 % power 2 11

def fraction (x : Binary64) : Nat := x.bits.toNat % power 2 52

def isFinite (x : Binary64) : Bool := x.exponentField != 2047

def isNaN (x : Binary64) : Bool := !x.isFinite && x.fraction != 0

/-- The size of a finite number is `significand * 2 ^ exponent`. -/
def significand (x : Binary64) : Nat :=
  if x.exponentField = 0 then x.fraction else x.fraction + power 2 52

def exponent (x : Binary64) : Int :=
  if x.exponentField = 0 then -1074 else (x.exponentField : Int) - 1075

def ofParts (negative : Bool) (exponentField fraction : Nat) : Binary64 :=
  ⟨UInt64.ofNat ((if negative then power 2 63 else 0) + exponentField * power 2 52 + fraction)⟩

def infinity (negative : Bool) : Binary64 := ofParts negative 2047 0

def nan : Binary64 := ofParts false 2047 (power 2 51)

/-- `num / den` in whole units of `2 ^ e`, a half going to the even neighbour. -/
def roundTo (num den : Nat) (e : Int) : Nat :=
  let n := num * power 2 (-e).toNat
  let d := den * power 2 e.toNat
  let q := n / d
  let twice := 2 * (n % d)
  if twice > d ∨ (twice = d ∧ q % 2 = 1) then q + 1 else q

/-- The number nearest to `num / den`. -/
def ofRatio (negative : Bool) (num den : Nat) : Binary64 :=
  if num = 0 then ofParts negative 0 0
  else
    let estimate : Int := (num.log2 : Int) - den.log2 - 53
    let whole := num * power 2 (-estimate).toNat / (den * power 2 estimate.toNat)
    let e := max (-1074) (if whole < power 2 53 then estimate else estimate + 1)
    let m := roundTo num den e
    let (m, e) := if m = power 2 53 then (power 2 52, e + 1) else (m, e)
    if e > 971 then infinity negative
    else if m < power 2 52 then ofParts negative 0 m
    else ofParts negative (e + 1075).toNat (m - power 2 52)

/-- The number nearest to `digits * 10 ^ scale`. Scales beyond the range of the format are decided
without computing the power. -/
def ofDecimal (negative : Bool) (digits : Nat) (scale : Int) : Binary64 :=
  let magnitude := (digits.log2 : Int) * 3 / 10 + scale
  if digits = 0 ∨ magnitude < -400 then ofParts negative 0 0
  else if magnitude > 400 then infinity negative
  else ofRatio negative (digits * power 10 scale.toNat) (power 10 (-scale).toNat)

/-- The whole number that `x` is, if it is one. -/
def toInt? (x : Binary64) : Option Int :=
  if !x.isFinite then none
  else
    let scale := power 2 (-x.exponent).toNat
    if x.significand % scale = 0 then
      let size : Int := (x.significand / scale * power 2 x.exponent.toNat : Nat)
      some (if x.negative then -size else size)
    else none

end Binary64

end Callees

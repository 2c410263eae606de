import Dataflow.Binary64

/-! # Numerals

    A number as it is written: sign, digits, and possibly a fraction and an
    exponent.  A numeral without fraction and exponent is an integer if it
    fits in 64 bits.  Any other one is a floating point number.

    Floating point numbers are read by gathering digits in a 64-bit
    significand and scaling it by a power of ten with one multiplication or
    division.  The digits beyond the significand only count for their place. -/

namespace Dataflow

/-- The value of a numeral. -/
inductive Number where
  /-- A natural number below `2 ^ 64`. -/
  | nat (value : Nat)
  /-- A negative integer down to `- 2 ^ 63`. -/
  | negative (value : Int)
  | float (value : Float)
  /-- No number at all, but with a sign. -/
  | undefined (isNegative : Bool)
  /-- Larger than every floating point number. -/
  | beyond
  deriving Inhabited

namespace Number

/-- The value as a natural number below `bound`. -/
def nat? (bound : Nat) : Number → Option Nat
  | nat n => if n < bound then some n else none
  | _ => none

/-- The value as a 64-bit signed integer. -/
def int? : Number → Option Int
  | nat n => if n < signedRange then some n else none
  | negative i => some i
  | _ => none

/-- The value as a floating point number. -/
def float? : Number → Option Float
  | nat n => some n.toUInt64.toFloat
  | negative i => some (Int64.ofInt i).toFloat
  | float x => some x
  | undefined _ => some (0.0 / 0.0)
  | beyond => none

/-- The value as the bit pattern of a floating point number.  Unlike the
    number itself, it keeps the sign of what is no number. -/
def binary64? : Number → Option Binary64
  | undefined isNegative => some ⟨if isNegative then 0xfff8000000000000 else 0x7ff8000000000000⟩
  | n => n.float?.map .ofFloat

/-- The value in single precision.  An integer is rounded once. -/
def float32? : Number → Option Float32
  | nat n => some n.toUInt64.toFloat32
  | negative i => some (Int64.ofInt i).toFloat32
  | float x => some x.toFloat32
  | undefined _ => some (0.0 / 0.0)
  | beyond => none

end Number

/-- A number as it is written. -/
structure Numeral where
  isNegative : Bool
  /-- The digits before the point. -/
  whole : List Nat
  /-- The digits after the point. -/
  fraction : List Nat := []
  /-- The sign (true for negative) and the digits of the exponent. -/
  exponent? : Option (Bool × List Nat) := none
  /-- Whether there is neither a point nor an exponent. -/
  isInteger : Bool

namespace Numeral

/-- The number that some digits spell. -/
def ofDigits (digits : List Nat) : Nat := digits.foldl (fun n d => 10 * n + d) 0

/-- Largest value of a significand. -/
def maxSignificand : Nat := wordRange - 1

/-- Gather digits before the point, with the number of those left out. -/
def gatherWhole : List Nat → Nat → Nat × Nat
  | [], s => (s, 0)
  | d :: rest, s =>
    if s * 10 + d > maxSignificand then (s, rest.length + 1) else gatherWhole rest (s * 10 + d)

/-- Gather digits after the point, with the number of those that were taken. -/
def gatherFraction : List Nat → Nat → Nat → Nat × Nat
  | [], s, n => (s, n)
  | d :: rest, s, n =>
    if s * 10 + d > maxSignificand then (s, n) else gatherFraction rest (s * 10 + d) (n + 1)

/-- The powers of ten that are scaled by in one step go up to this one. -/
def maxPower : Nat := 308

/-- A power of ten, rounded to the nearest floating point number. -/
def powerOfTen (n : Nat) : Float := Float.ofScientific 1 false n

/-- `x` times ten to the power `exponent`.  Small results are reached by
    dividing by `10 ^ 308` as often as it takes, at most `steps` times. -/
def scale (x : Float) (exponent : Int) : (steps : Nat) → Number
  | 0 => .float x
  | steps + 1 =>
    if exponent.natAbs ≤ maxPower then
      if exponent ≥ 0 then
        let y := x * powerOfTen exponent.natAbs
        if y.isInf then .beyond else .float y
      else .float (x / powerOfTen exponent.natAbs)
    else if x == 0.0 then .float x
    else if exponent ≥ 0 then .beyond
    else scale (x / powerOfTen maxPower) (exponent + maxPower) steps

/-- Exponents beyond this one are not spelled out. -/
def maxExponent : Nat := 0x7fffffff

/-- The value of a numeral, its sign left aside, as a floating point number. -/
def magnitude (n : Numeral) : Number :=
  let (s, dropped) := gatherWhole n.whole 0
  let (s, places) := gatherFraction n.fraction s 0
  let base : Int := (dropped : Int) - places
  let x := s.toUInt64.toFloat
  match n.exponent? with
  | none => scale x base 8
  | some (isNegative, digits) =>
    let e := ofDigits digits
    if e > maxExponent then
      if s ≠ 0 && !isNegative then .beyond else .float 0.0
    else scale x (if isNegative then base - e else base + e) 8

/-- The value of a numeral as a floating point number. -/
def toFloat (n : Numeral) : Number :=
  match n.magnitude with
  | .float x => .float (if n.isNegative then -x else x)
  | other => other

/-- The value of a numeral.  A negative zero is a floating point number. -/
def value (n : Numeral) : Number :=
  if n.isInteger then
    let v := ofDigits n.whole
    if n.isNegative then
      if v ≠ 0 && v ≤ signedRange then .negative (-(v : Int)) else n.toFloat
    else if v ≤ maxSignificand then .nat v
    else n.toFloat
  else n.toFloat

end Numeral

end Dataflow

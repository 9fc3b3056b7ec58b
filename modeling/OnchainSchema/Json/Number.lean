/-!
JSON numbers. A numeral without fraction and exponent that fits 64 bits is an integer; any other is
a double.
-/
namespace OnchainSchema.Json

inductive Number where
  | int (n : Int)
  /-- A double by its bits. -/
  | double (bits : UInt64)
  deriving DecidableEq, Repr

/-- A number as written; without a fraction or an exponent those parts are empty. -/
structure Numeral where
  negative : Bool
  whole : List Nat
  fraction : List Nat
  exponent : Option Int
  deriving DecidableEq, Repr

namespace Numeral

/-- Appends digits to a 64-bit significand up to the first that does not fit. -/
def absorb (s : Nat) : List Nat → Nat × List Nat
  | [] => (s, [])
  | d :: ds => if s * 10 + d < UInt64.size then absorb (s * 10 + d) ds else (s, d :: ds)

def tenPow (n : Nat) : Float := Float.ofScientific 1 false n

/-- `f · 10 ^ e` by one product or quotient with a power of ten that is a double, after steps of
`10 ^ 308` if the exponent is below those. `none` if the product is too large. -/
def scale (f : Float) (e : Int) : Option Float :=
  if e.natAbs ≤ 308 then
    if 0 ≤ e then
      let g := f * tenPow e.natAbs
      if g.isInf then none else some g
    else some (f / tenPow e.natAbs)
  else if f == 0 then some f
  else if 0 ≤ e then none
  else scale (f / tenPow 308) (e + 308)
termination_by (-e).toNat

/-- Whole digits that do not fit the significand raise the exponent; digits of the fraction that
fit lower it, and the others are dropped. -/
def toDouble (n : Numeral) : Option Number :=
  let (w, overflow) := absorb 0 n.whole
  let (s, dropped) := absorb w n.fraction
  let e := overflow.length - (n.fraction.length - dropped.length : Int) + n.exponent.getD 0
  (scale s.toUInt64.toFloat e).map fun f => .double (if n.negative then -f else f).toBits

/-- `none` if the number is too large for a double. Minus zero is a double. -/
def value? (n : Numeral) : Option Number :=
  let (w, overflow) := absorb 0 n.whole
  if n.fraction.isEmpty && n.exponent.isNone && overflow.isEmpty then
    if !n.negative then some (.int w)
    else if 0 < w ∧ w ≤ UInt64.size / 2 then some (.int (-w))
    else n.toDouble
  else n.toDouble

end Numeral

end OnchainSchema.Json

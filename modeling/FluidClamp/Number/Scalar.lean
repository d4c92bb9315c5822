/-
  FluidClamp.Number.Scalar
  ────────────────────────
  **THE ARITHMETIC THAT SIZING NEEDS.**

  The interpolation between two anchors is written once, over any `Scalar`.  The
  program runs it over `Binary64`; over `Rat` the same definitions give the exact
  value that the printed one approximates, with the two decimal roundings kept
  and nothing else rounded.
-/
import FluidClamp.Number.Decimal

namespace FluidClamp

/-! ## §1. The interface. -/

/-- Numbers that sizes can be computed with. -/
class Scalar (α : Type) extends Add α, Sub α, Mul α, Div α where
  ofNat : Nat → α
  abs : α → α
  min : α → α → α
  max : α → α → α
  lt : α → α → Bool
  le : α → α → Bool
  equal : α → α → Bool
  /-- Rounding to decimal places, halves away from zero. -/
  toPlaces : Nat → α → α

/-! ## §2. Binary64 numbers. -/

instance : Scalar Binary64 where
  ofNat := Binary64.ofNat
  abs := Binary64.abs
  min := Binary64.min
  max := Binary64.max
  lt := Binary64.lt
  le := Binary64.le
  equal := Binary64.equal
  toPlaces := Binary64.toPlaces

/-! ## §3. Exact rationals. -/

/-- The multiple of `10^−places` nearest to `q`, halves away from zero. -/
def ratToPlaces (places : Nat) (q : Rat) : Rat :=
  let scale := Nat.pow 10 places
  let magnitude := mkRat (roundDiv .awayFromZero (q.num.natAbs * scale) q.den) scale
  if q < 0 then -magnitude else magnitude

instance : Scalar Rat where
  ofNat n := n
  abs q := if q < 0 then -q else q
  min p q := if q < p then q else p
  max p q := if p < q then q else p
  lt p q := decide (p < q)
  le p q := decide (p ≤ q)
  equal p q := decide (p = q)
  toPlaces := ratToPlaces

end FluidClamp

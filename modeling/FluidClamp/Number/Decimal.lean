/-
  FluidClamp.Number.Decimal
  ─────────────────────────
  **DECIMAL FRACTIONS: READING THEM IN, ROUNDING TO PLACES, FEWEST DIGITS.**

  A `Decimal` is `coefficient · 10^exponent`.  Three passages lead between
  decimals and binary64 numbers:

      ofDecimal   — the binary64 number nearest to a decimal
      toPlaces    — a number rounded to a multiple of 10^−places, halves away
                    from zero, and back to the nearest number
      shortest    — the decimal with the fewest digits that reads back

  Every finite magnitude has a finite decimal expansion, since its denominator
  is a power of two; `shortest` cuts digits off that expansion, starting with
  all of them, and stops at the first cut one of whose two neighbours reads
  back.
-/
import FluidClamp.Number.Binary64

namespace FluidClamp

/-! ## §1. Decimals. -/

/-- The fraction `coefficient · 10^exponent`. -/
structure Decimal where
  coefficient : Nat
  exponent : Int
  deriving Repr, DecidableEq

namespace Decimal

/-- The exact value. -/
def toRat (d : Decimal) : Rat := d.coefficient * (10 : Rat) ^ d.exponent

/-- The digits of the coefficient, without leading zeros. -/
def digits (d : Decimal) : List Char := Nat.toDigits 10 d.coefficient

/-- How many digits a whole number has; none for zero. -/
def digitCount (n : Nat) : Nat := if n = 0 then 0 else (Nat.toDigits 10 n).length

end Decimal

namespace Binary64

/-- Decimals from `10^range` on are infinite, and decimals below `10^−range` are
zero. -/
def decimalRange : Nat := 400

/-- **The number nearest to a decimal.**  The two cuts keep the powers of ten
small; what they cut off rounds to infinity and to zero by a wide margin. -/
def ofDecimal (negative : Bool) (d : Decimal) : Binary64 :=
  if d.coefficient = 0 then ofQuotient negative 0 1
  else if (decimalRange : Int) ≤ d.exponent then .infinite negative
  else if Decimal.digitCount d.coefficient + d.exponent ≤ -(decimalRange : Int) then
    ofQuotient negative 0 1
  else if d.exponent < 0 then
    ofQuotient negative d.coefficient (Nat.pow 10 (-d.exponent).toNat)
  else ofQuotient negative (d.coefficient * Nat.pow 10 d.exponent.toNat) 1

/-! ## §2. Rounding to decimal places. -/

/-- Whether a dyadic `q` lies exactly halfway between two multiples of
`10^−places`; then `q · 2^(places + 1)` is an odd whole number, and only then. -/
def isPlacesTie (places : Nat) (q : Rat) : Bool :=
  let scaled := q * 2 ^ (places + 1)
  scaled.den = 1 && scaled.num % 2 ≠ 0

/-- The exact value of `q` is written with `places` decimals, a half going to the
even digit, and read back. -/
def throughPlaces (places : Nat) (negative : Bool) (q : Rat) : Binary64 :=
  ofDecimal negative
    ⟨roundDiv .toEven (q.num.natAbs * Nat.pow 10 places) q.den, -(places : Int)⟩

/-- **Rounding to decimal places**, halves away from zero.  A half is first moved
to the multiple beyond it, in binary64 arithmetic; what is not finite stays. -/
def toPlaces (places : Nat) (x : Binary64) : Binary64 :=
  match x.toRat? with
  | none => x
  | some q =>
      if isPlacesTie places q then
        let factor := ofNat (Nat.pow 10 places)
        let beyond := (x.abs * factor).trunc + ofNat 1
        let moved := (if x.isNegative then -beyond else beyond) / factor
        match moved.toRat? with
        | some m => throughPlaces places x.isNegative m
        | none => moved
      else throughPlaces places x.isNegative q

/-! ## §3. The fewest digits that read back. -/

/-- The finite decimal expansion of `num / 2^k`. -/
def expansion (num k : Nat) : Decimal := ⟨num * Nat.pow 5 k, -(k : Int)⟩

/-- **The decimal with the fewest digits** that reads back as the positive
number `x`: of two such decimals the nearer, of two equally near the larger. -/
def shortest (x : Binary64) : Decimal :=
  match x.toRat? with
  | none => ⟨0, 0⟩
  | some q =>
      let exact := expansion q.num.natAbs q.den.log2
      cut exact (Decimal.digitCount exact.coefficient)
where
  /-- Cut at most `n` digits off the end, as many as the number allows. -/
  cut (exact : Decimal) : Nat → Decimal
    | 0 => exact
    | n + 1 =>
        let unit := Nat.pow 10 (n + 1)
        let low : Decimal := ⟨exact.coefficient / unit, exact.exponent + (n + 1 : Nat)⟩
        let high : Decimal := ⟨low.coefficient + 1, low.exponent⟩
        let lowIsNearer := decide (2 * (exact.coefficient % unit) < unit)
        match readsBack low, readsBack high with
        | true, true => if lowIsNearer then low else high
        | true, false => low
        | false, true => high
        | false, false => cut exact n
  readsBack (d : Decimal) : Bool := ofDecimal false d = x.abs

end Binary64

end FluidClamp

/-
  FluidClamp.Json.Number
  ──────────────────────
  **THE NUMBER THAT A JSON NUMERAL STANDS FOR.**

  RFC 8259 leaves it open how exactly a numeral is read.  Here it is read the way
  `serde_json` 1 reads it without its feature `float_roundtrip`, in three steps:

      significand   as many digits as make up a 64-bit word; those behind them
                    are dropped, and the ones before the point still count
      power         of ten, from the point, the dropped digits and the exponent
      scaling       the significand times or through the power, in binary64

  The last step rounds once more than necessary, so a numeral with many digits or a
  large power can come out one off the nearest number.  A numeral that is too large
  is refused, one that is too small is zero.
-/
import FluidClamp.Number.Numeral

namespace FluidClamp

namespace Numeral

/-! ## §1. The significand. -/

/-- One more than the largest word. -/
def wordLimit : Nat := 0x10000000000000000

/-- Digits are put behind a number as long as it stays a word; the others are left
over. -/
def takeDigits (number : Nat) : List Char → Nat × List Char
  | [] => (number, [])
  | c :: digits =>
      let longer := 10 * number + (c.toNat - 48)
      if longer < wordLimit then takeDigits longer digits else (number, c :: digits)

/-- The significand, and the power of ten that the digits and the point give it. -/
def significand (numeral : Numeral) : Nat × Int :=
  let (whole, dropped) := takeDigits 0 numeral.whole
  let fraction := numeral.fraction.getD []
  let (number, ignored) := takeDigits whole fraction
  (number, (dropped.length : Int) - ((fraction.length - ignored.length : Nat) : Int))

/-! ## §2. Scaling. -/

/-- The largest power of ten that is a number. -/
def largestPower : Nat := 308

/-- A power of ten, as near as it can be. -/
def powerOfTen (n : Nat) : Binary64 := .ofDecimal false ⟨1, n⟩

/-- Divide by a power of ten, by the largest one as often as it is needed. -/
def divideByPower (x : Binary64) (n : Nat) : Binary64 :=
  if n ≤ largestPower then x / powerOfTen n
  else if x.equal .zero then x
  else divideByPower (x / powerOfTen largestPower) (n - largestPower)
termination_by n
decreasing_by
  rename_i h _
  exact Nat.sub_lt (Nat.lt_of_le_of_lt (Nat.zero_le _) (Nat.lt_of_not_le h)) (by decide)

/-- Scale a significand by a power of ten; what is not finite is too large. -/
def scale? (significand : Nat) (power : Int) : Option Binary64 :=
  let x := Binary64.ofNat significand
  if power < 0 then some (divideByPower x (-power).toNat)
  else if power.toNat ≤ largestPower then
    let scaled := x * powerOfTen power.toNat
    if scaled.isFinite then some scaled else none
  else if significand = 0 then some x
  else none

/-! ## §3. Exponents. -/

/-- Written exponents that are larger stand for infinity or zero. -/
def exponentLimit : Nat := 0x80000000

/-- **The number of a numeral**, unless it is too large. -/
def scaled? (numeral : Numeral) : Option Binary64 :=
  let (number, power) := numeral.significand
  let magnitude :=
    match numeral.exponent with
    | none => scale? number power
    | some (sign, digits) =>
        let exponent := ofDigits digits
        let isSmall := decide (sign = some Sign.minus)
        if exponent < exponentLimit then
          scale? number (if isSmall then power - exponent else power + exponent)
        else if isSmall || number = 0 then some .zero
        else none
  magnitude.map fun x => if numeral.isNegative then -x else x

end Numeral

end FluidClamp

/-
  FluidClamp.Number.Text
  ──────────────────────
  **NUMBERS AS TEXT.**

  Digits are always the fewest that read back.  What is left to decide is the
  layout, and a `NumberStyle` holds the two decisions that differ between the
  places where the program writes a number: the text of negative zero, and which
  magnitudes get an exponent.

      style   negative zero   exponent
      css     0               below 1e-6 and from 1e21 on
      plain   -0              never
-/
import FluidClamp.Number.Decimal

namespace FluidClamp

/-! ## §1. Two layouts of a decimal. -/

namespace Decimal

/-- All digits written out, with zeros up to the point where needed:
`1200`, `1.5`, `0.00012`. -/
def positional (d : Decimal) : List Char :=
  if 0 ≤ d.exponent then
    d.digits ++ List.replicate d.exponent.toNat '0'
  else
    let places := (-d.exponent).toNat
    let padded := List.replicate (places + 1 - d.digits.length) '0' ++ d.digits
    padded.take (padded.length - places) ++ '.' :: padded.drop (padded.length - places)

/-- One digit before the point, the rest after it, and the power of ten:
`1e-7`, `2.5e+22`. -/
def scientific (d : Decimal) : List Char :=
  let power := d.exponent + (d.digits.length - 1 : Nat)
  let mark := if power < 0 then ['e', '-'] else ['e', '+']
  leading d.digits ++ mark ++ Nat.toDigits 10 power.natAbs
where
  leading : List Char → List Char
    | [] => []
    | [first] => [first]
    | first :: rest => first :: '.' :: rest

end Decimal

/-! ## §2. Styles. -/

/-- How numbers are laid out. -/
structure NumberStyle where
  /-- The text of negative zero. -/
  negativeZero : List Char
  /-- Which magnitudes are written with an exponent. -/
  usesExponent : Binary64 → Bool

namespace NumberStyle

/-- Numbers in style sheets. -/
def css : NumberStyle where
  negativeZero := ['0']
  usesExponent magnitude :=
    magnitude.lt (.ofDecimal false ⟨1, -6⟩) || (Binary64.ofDecimal false ⟨1, 21⟩).le magnitude

/-- Numbers in messages. -/
def plain : NumberStyle where
  negativeZero := ['-', '0']
  usesExponent _ := false

/-- **The text of a number.** -/
def write (style : NumberStyle) : Binary64 → List Char
  | .nan => ['N', 'a', 'N']
  | .infinite negative => sign negative ++ ['i', 'n', 'f']
  | .finite negative rank =>
      if rank.val = 0 then if negative then style.negativeZero else ['0']
      else
        let magnitude := Binary64.finite false rank
        let decimal := magnitude.shortest
        sign negative ++
          if style.usesExponent magnitude then decimal.scientific else decimal.positional
where
  sign (negative : Bool) : List Char := if negative then ['-'] else []

end NumberStyle

/-- The text of a number in a style sheet. -/
def Binary64.cssText (x : Binary64) : String := String.ofList (NumberStyle.css.write x)

/-- The text of a number in a message. -/
def Binary64.plainText (x : Binary64) : String := String.ofList (NumberStyle.plain.write x)

end FluidClamp

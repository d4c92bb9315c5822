/-
  FluidClamp.Number.Numeral
  ─────────────────────────
  **NUMERALS.**

  A numeral is a number as somebody wrote it: an optional sign, digits, an
  optional fraction, an optional exponent.  `Numeral.split` takes the longest
  numeral off the front of a text, and which numerals a format admits is then a
  question about its parts (`Numeral.isLength`, `isFloat`, `isStrict`), asked by
  each format in its own way.  `Numeral.toBinary64` is the number nearest to
  what was written, however long it is.
-/
import FluidClamp.Number.Decimal

namespace FluidClamp

/-! ## §1. The parts of a numeral. -/

/-- A written sign. -/
inductive Sign where
  | plus
  | minus
  deriving Repr, DecidableEq

namespace Sign

/-- Take a sign off the front. -/
def split : List Char → Option Sign × List Char
  | '+' :: rest => (some .plus, rest)
  | '-' :: rest => (some .minus, rest)
  | text => (none, text)

def toChar : Sign → Char
  | .plus => '+'
  | .minus => '-'

end Sign

/-- A written number.  A part that stands without digits is kept as an empty
list, so that formats can refuse it. -/
structure Numeral where
  sign : Option Sign
  /-- The digits before the point. -/
  whole : List Char
  /-- The digits after the point, if there is a point. -/
  fraction : Option (List Char)
  /-- The sign and the digits after the `e`, if there is one. -/
  exponent : Option (Option Sign × List Char)
  deriving Repr, DecidableEq

namespace Numeral

/-- The digits at the front, and the rest. -/
def splitDigits (text : List Char) : List Char × List Char :=
  (text.takeWhile Char.isDigit, text.dropWhile Char.isDigit)

/-- The point and the digits behind it. -/
def splitFraction : List Char → Option (List Char) × List Char
  | '.' :: rest => (some (splitDigits rest).1, (splitDigits rest).2)
  | text => (none, text)

/-- The letter `e` or `E`, a sign and digits. -/
def splitExponent : List Char → Option (Option Sign × List Char) × List Char
  | c :: rest =>
      if c = 'e' ∨ c = 'E' then
        let signed := Sign.split rest
        (some (signed.1, (splitDigits signed.2).1), (splitDigits signed.2).2)
      else (none, c :: rest)
  | [] => (none, [])

/-- **The longest numeral at the front of a text**, and the rest. -/
def split (text : List Char) : Numeral × List Char :=
  let signed := Sign.split text
  let whole := splitDigits signed.2
  let fraction := splitFraction whole.2
  let exponent := splitExponent fraction.2
  (⟨signed.1, whole.1, fraction.1, exponent.1⟩, exponent.2)

/-! ## §2. The number that is meant. -/

/-- The number that a digit string writes. -/
def ofDigits (digits : List Char) : Nat := Nat.ofDigitChars 10 digits 0

def isNegative (n : Numeral) : Bool := n.sign = some .minus

/-- The decimal that the digits, the point and the exponent denote. -/
def toDecimal (n : Numeral) : Decimal where
  coefficient := ofDigits (n.whole ++ n.fraction.getD [])
  exponent := power n.exponent - ((n.fraction.getD []).length : Nat)
where
  power : Option (Option Sign × List Char) → Int
    | none => 0
    | some (some .minus, digits) => -(ofDigits digits : Int)
    | some (_, digits) => ofDigits digits

/-- The exact value. -/
def toRat (n : Numeral) : Rat :=
  if n.isNegative then -n.toDecimal.toRat else n.toDecimal.toRat

/-- **The number nearest to what is written.** -/
def toBinary64 (n : Numeral) : Binary64 := .ofDecimal n.isNegative n.toDecimal

/-! ## §3. Which numerals a format admits. -/

/-- Digits on both sides of a point, or at least after it; no exponent. -/
def isLength (n : Numeral) : Bool :=
  n.exponent.isNone &&
    match n.fraction with
    | none => !n.whole.isEmpty
    | some fraction => !fraction.isEmpty

/-- A digit somewhere before the exponent; an exponent has digits. -/
def isFloat (n : Numeral) : Bool :=
  (!n.whole.isEmpty || !(n.fraction.getD []).isEmpty) &&
    n.exponent.all fun e => !e.2.isEmpty

/-- No plus sign, no superfluous zero, and digits in every part. -/
def isStrict (n : Numeral) : Bool :=
  n.sign ≠ some .plus && (n.whole.length = 1 || (n.whole ≠ [] && n.whole.head? ≠ some '0')) &&
    n.fraction.all (fun digits => !digits.isEmpty) &&
    n.exponent.all fun e => !e.2.isEmpty

end Numeral

/-! ## §4. Floating-point words on their own. -/

namespace Binary64

/-- Letters without case. -/
def foldCase (text : List Char) : List Char := text.map Char.toLower

/-- **A whole text as a number**: a numeral, or one of the names of infinity and
not-a-number after an optional sign, in any case. -/
def ofText? (text : List Char) : Option Binary64 :=
  let signed := Sign.split text
  let negative := decide (signed.1 = some .minus)
  let name := foldCase signed.2
  if name = ['n', 'a', 'n'] then some .nan
  else if name = ['i', 'n', 'f'] ∨ name = ['i', 'n', 'f', 'i', 'n', 'i', 't', 'y'] then
    some (.infinite negative)
  else
    let parsed := Numeral.split text
    if parsed.2 = [] ∧ parsed.1.isFloat then some parsed.1.toBinary64 else none

end Binary64

end FluidClamp

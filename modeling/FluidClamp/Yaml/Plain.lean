/-
  FluidClamp.Yaml.Plain
  ─────────────────────
  **WHAT A PLAIN SCALAR LOOKS LIKE.**

  Nothing tells a plain scalar from a number or a truth value but its text.  A
  text is taken for null, a truth value, an integer in one of four bases or a
  floating-point number if it is written like one, and for a string otherwise
  (`isString`).

  Which texts these are is what `serde_yaml` 0.9 says, mostly the core schema of
  YAML 1.2: `yes` and `no` are strings, an integer has at most 128 bits, and digits
  behind a superfluous zero are a string.
-/
import FluidClamp.Number.Numeral
import FluidClamp.Text.Cut
import FluidClamp.Text.Hex

namespace FluidClamp.Yaml

/-! ## §1. Words. -/

/-- The words for nothing. -/
def isNull (text : List Char) : Bool :=
  ["null", "Null", "NULL", "~"].contains (String.ofList text)

/-- The truth values. -/
def isTruthValue (text : List Char) : Bool :=
  ["true", "True", "TRUE", "false", "False", "FALSE"].contains (String.ofList text)

/-! ## §2. Numbers. -/

/-- Whether digits of a base write a number below a bound. -/
def isNumberBelow (base bound : Nat) (digits : List Char) : Bool :=
  match digits.mapM hexDigit? with
  | none | some [] => false
  | some values =>
      values.all (fun value => decide (value < base)) &&
        decide (values.foldl (fun n value => n * base + value) 0 < bound)

/-- An integer with the mark of its base, of 128 bits with the sign. -/
def isBasedInteger (text : List Char) : Bool :=
  match text with
  | '-' :: text => isMagnitude (Nat.pow 2 127 + 1) text
  | '+' :: text => isMagnitude (Nat.pow 2 128) text
  | text => isMagnitude (Nat.pow 2 128) text
where
  isMagnitude (bound : Nat) : List Char → Bool
    | '0' :: 'x' :: digits => isNumberBelow 16 bound digits
    | '0' :: 'o' :: digits => isNumberBelow 8 bound digits
    | '0' :: 'b' :: digits => isNumberBelow 2 bound digits
    | _ => false

/-- Digits behind a superfluous zero, which are no number but a string. -/
def hasLeadingZero (text : List Char) : Bool :=
  match (Sign.split text).2 with
  | '0' :: c :: digits => (c :: digits).all Char.isDigit
  | _ => false

/-- **The number that a text writes**: a finite one as a numeral, the others by
name. -/
def number? (text : List Char) : Option Binary64 :=
  let unsigned := (after? ['+'] text).getD text
  if unsigned ≠ text ∧ (unsigned.head? = some '+' ∨ unsigned.head? = some '-') then none
  else if [".inf", ".Inf", ".INF"].contains (String.ofList unsigned) then some (.infinite false)
  else if ["-.inf", "-.Inf", "-.INF"].contains (String.ofList text) then some (.infinite true)
  else if [".nan", ".NaN", ".NAN"].contains (String.ofList text) then some .nan
  else (Binary64.ofText? unsigned).filter Binary64.isFinite

/-! ## §3. Strings. -/

/-- **Whether a plain scalar is a string.** -/
def isString (text : List Char) : Bool :=
  !(text.isEmpty || isNull text || isTruthValue text || isBasedInteger text ||
    (!hasLeadingZero text && (number? text).isSome))

end FluidClamp.Yaml

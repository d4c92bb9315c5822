/-
  FluidClamp.Length
  ─────────────────
  **CSS LENGTHS IN `px` AND `rem`.**

  A length is a number with a unit.  Written, it is a numeral without exponent
  directly followed by the unit (`Length.parse?`); `Length.text` writes it, and
  the two fit together on the lengths whose text needs no exponent.
-/
import FluidClamp.Number.Text
import FluidClamp.Number.Numeral
import FluidClamp.Number.Scalar

namespace FluidClamp

/-! ## §1. Units and lengths. -/

/-- The units of a length: pixels, and multiples of the root font size. -/
inductive LengthUnit where
  | px
  | rem
  deriving Repr, DecidableEq

namespace LengthUnit

/-- How the unit is written. -/
def text : LengthUnit → String
  | .px => "px"
  | .rem => "rem"

/-- The unit that is written so. -/
def parse? : List Char → Option LengthUnit
  | ['p', 'x'] => some .px
  | ['r', 'e', 'm'] => some .rem
  | _ => none

theorem parse?_text (unit : LengthUnit) : parse? unit.text.toList = some unit := by
  cases unit <;> rfl

end LengthUnit

/-- A number of some unit. -/
structure Length (α : Type) where
  value : α
  unit : LengthUnit
  deriving Repr, DecidableEq

namespace Length

/-- The length in pixels, where `root` pixels make one `rem`. -/
def toPixels {α : Type} [Mul α] (root : α) (length : Length α) : α :=
  match length.unit with
  | .px => length.value
  | .rem => length.value * root

/-! ## §2. Reading and writing. -/

/-- **Read a length**: a numeral, its unit, and nothing else.  A numeral too
large for a number is refused. -/
def parse? (text : String) : Option (Length Binary64) :=
  let parsed := Numeral.split text.toList
  match LengthUnit.parse? parsed.2 with
  | none => none
  | some unit =>
      if parsed.1.isLength ∧ parsed.1.toBinary64.isFinite then
        some ⟨parsed.1.toBinary64, unit⟩
      else none

/-- The text of a length. -/
def text (length : Length Binary64) : String :=
  length.value.cssText ++ length.unit.text

end Length

end FluidClamp

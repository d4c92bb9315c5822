/-
  FluidClamp.Json.Value
  ─────────────────────
  **JSON VALUES.**

  A value is kept as it was written where that may matter to its reader: numbers
  are numerals, the fields of an object stand in their order and may repeat, and
  a string whose escapes are not characters is a value, but has no text.  The readers
  of `serde_json` 1 look at these things while they read; here they look at the value
  afterwards, and see the same.
-/
import FluidClamp.Number.Numeral

namespace FluidClamp

/-- A JSON value. -/
inductive Json where
  | null
  | bool (value : Bool)
  | number (numeral : Numeral)
  /-- A string; without a text if an escape in it is half of a pair. -/
  | string (text : Option String)
  | array (items : List Json)
  | object (fields : List (Option String × Json))
  deriving Repr

end FluidClamp

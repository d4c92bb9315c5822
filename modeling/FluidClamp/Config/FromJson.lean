/-
  FluidClamp.Config.FromJson
  ──────────────────────────
  **CONFIGURATIONS IN JSON.**

  A configuration is an object with the keys of its parts, or an array of the
  parts in their order.  Keys that mean nothing are passed over, a part that is
  given twice is a fault, and a name that is given twice takes its last value.
  Nothing is converted: a number is not a string, nor the other way round.  This is
  what `serde_json` 1 makes of a structure whose parts all have defaults.
-/
import FluidClamp.Config.Parts
import FluidClamp.Json.Number
import FluidClamp.Json.Reader

namespace FluidClamp.Json

/-! ## §1. Values of the parts. -/

/-- A text. -/
def text? : Json → Option String
  | .string text => text
  | _ => none

/-- A text, or nothing. -/
def optionalText? : Json → Option (Option String)
  | .null => some none
  | value => value.text?.map some

/-- A map, whose entries are read one by one. -/
def map? {α : Type} (read : Json → Option α) : Json → Option (OrderedMap String α)
  | .object fields =>
      fields.foldlM (fun map field => do
        let key ← field.1
        let value ← read field.2
        return map.insert key value) .empty
  | _ => none

/-- A shorthand: a text, or a list of texts. -/
def shorthand? : Json → Option NamedShorthand
  | .string text => text.map .whole
  | .array items => (items.mapM text?).map .anchors
  | _ => none

/-- A number that is not too large. -/
def number? : Json → Option Binary64
  | .number numeral => numeral.scaled?
  | _ => none

/-! ## §2. Configurations. -/

/-- Add a part. -/
def addPart (parts : ConfigParts) (key : ConfigKey) (value : Json) : Option ConfigParts :=
  match key with
  | .screens => (value.map? optionalText?).map fun screens => { parts with screens := some screens }
  | .rootSize => value.number?.map fun size => { parts with rootSize := some size }
  | .values =>
      (value.map? (map? shorthand?)).map fun values => { parts with values := some values }

/-- Add the part of a field. -/
def addField (parts : ConfigParts) (field : Option String × Json) : Option ConfigParts := do
  let key ← field.1
  match ConfigKey.ofText? key with
  | none => return parts
  | some key => if parts.has key then none else addPart parts key field.2

/-- The parts of a configuration, by key or in order. -/
def configParts? : Json → Option ConfigParts
  | .object fields => fields.foldlM addField {}
  | .array items =>
      if items.length ≤ 3 then
        ([ConfigKey.screens, .rootSize, .values].zip items).foldlM
          (fun parts part => addPart parts part.1 part.2) {}
      else none
  | _ => none

/-- **Read a configuration in JSON.** -/
def parseConfig? (text : String) : Option Config := do
  let value ← parse? text
  let parts ← value.configParts?
  return parts.toConfig

end FluidClamp.Json

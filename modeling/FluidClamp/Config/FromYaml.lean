/-
  FluidClamp.Config.FromYaml
  ──────────────────────────
  **CONFIGURATIONS IN YAML.**

  A configuration is a mapping with the keys of its parts.  Keys and the widths of
  screens are texts however they look; a shorthand has to be a string.  An empty
  text and an empty document are empty mappings.

  A text may repeat a node many times by aliases, but they may not be followed
  more than a hundred times as often as there are events in the text.

  This is what `serde_yaml` 0.9 makes of a structure whose parts all have defaults.
-/
import FluidClamp.Config.Parts
import FluidClamp.Yaml.Node
import FluidClamp.Yaml.Plain

namespace FluidClamp.Yaml

/-! ## §1. Reading nodes. -/

/-- Reading, which may fail; the state says how many aliases may still be followed. -/
abbrev Reading := StateT Nat Option

namespace Node

/-- The node itself. -/
def follow : Node → Reading Node
  | .shared node => do
      match ← get with
      | 0 => failure
      | left + 1 =>
          set left
          return node
  | .loop => failure
  | node => return node

/-- The text of a scalar. -/
def text (node : Node) : Reading String := do
  match ← node.follow with
  | .scalar _ _ text => return .ofList text
  | _ => failure

/-- The tags of the core types. -/
def coreTag (name : String) : List Char := ("tag:yaml.org,2002:" ++ name).toList

/-- The text of a scalar, or nothing. -/
def optionalText (node : Node) : Reading (Option String) := do
  match ← node.follow with
  | .scalar .plain none text =>
      return if text = [] ∨ isNull text then none else some (.ofList text)
  | .scalar .plain (some tag) text =>
      if tag ≠ coreTag "null" then return some (.ofList text)
      else if isNull text then return none
      else failure
  | .scalar _ _ text => return some (.ofList text)
  | _ => failure

/-- A string: the text of a scalar that is not of another type. -/
def string (node : Node) : Reading String := do
  match ← node.follow with
  | .scalar style none text =>
      if style = .plain ∧ !isString text then failure else return .ofList text
  | .scalar _ (some tag) text =>
      if tag.head? = some '!' ∨ (["bool", "int", "float", "null"].map coreTag).contains tag then
        failure
      else return .ofList text
  | _ => failure

/-- A map, whose entries are read one by one. -/
def map {α : Type} (read : Node → Reading α) (node : Node) : Reading (OrderedMap String α) := do
  match ← node.follow with
  | .mapping _ entries =>
      entries.foldlM (fun map entry => do
        let key ← entry.1.text
        let value ← read entry.2
        return map.insert key value) .empty
  | .scalar .plain _ [] => return .empty
  | _ => failure

/-- A shorthand: a string, or a list of strings. -/
def shorthand (node : Node) : Reading NamedShorthand := do
  match ← node.follow with
  | .sequence tag items =>
      if tag.any fun tag => decide (tag.head? = some '!') then failure
      else return .anchors (← items.mapM string)
  | node => return .whole (← node.string)

/-- A number, which is a plain scalar unless a tag says what a literal one is. -/
def number (node : Node) : Reading Binary64 := do
  match ← node.follow with
  | .scalar style tag text =>
      if style = .plain ∨ (style = .literal ∧ tag = some (coreTag "float")) then
        match number? text with
        | some number => return number
        | none => failure
      else failure
  | _ => failure

/-! ## §2. Configurations. -/

/-- Add the part of an entry. -/
def addEntry (parts : ConfigParts) (entry : Node × Node) : Reading ConfigParts := do
  match ConfigKey.ofText? (← entry.1.text) with
  | none => return parts
  | some key =>
      if parts.has key then failure
      else
        match key with
        | .screens => return { parts with screens := some (← entry.2.map optionalText) }
        | .rootSize => return { parts with rootSize := some (← entry.2.number) }
        | .values => return { parts with values := some (← entry.2.map (map shorthand)) }

/-- The parts of a configuration. -/
def configParts : Node → Reading ConfigParts
  | .mapping _ entries => entries.foldlM addEntry {}
  | .scalar .plain _ [] => return {}
  | _ => failure

end Node

/-- **Read a configuration in YAML.** -/
def parseConfig? (text : String) : Option Config := do
  let document ← Document.ofText? text
  match document.root with
  | none => return {}
  | some root =>
      let (parts, _) ← root.configParts.run (100 * document.events)
      return parts.toConfig

end FluidClamp.Yaml

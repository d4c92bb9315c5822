/-
  FluidClamp.Config.Parts
  ───────────────────────
  **THE PARTS OF A CONFIGURATION AS THEY ARE READ.**

  A configuration file gives each part at most once, under its key; the root font
  size has two keys.  A part that is not given has its default.
-/
import FluidClamp.Config

namespace FluidClamp

/-! ## §1. Keys. -/

/-- Which part of a configuration a key names. -/
inductive ConfigKey where
  | screens
  | rootSize
  | values
  deriving Repr, DecidableEq

/-- The part of a key; other keys mean nothing. -/
def ConfigKey.ofText? (key : String) : Option ConfigKey :=
  if key = "screens" then some .screens
  else if key = "root_font_size_pixel" ∨ key = "rootFontSizePixel" then some .rootSize
  else if key = "values" then some .values
  else none

/-! ## §2. Parts. -/

/-- The parts that have been read so far. -/
structure ConfigParts where
  screens : Option (OrderedMap String (Option String)) := none
  rootSize : Option Binary64 := none
  values : Option (OrderedMap String (OrderedMap String NamedShorthand)) := none

namespace ConfigParts

/-- Whether a part has been read. -/
def has (parts : ConfigParts) : ConfigKey → Bool
  | .screens => parts.screens.isSome
  | .rootSize => parts.rootSize.isSome
  | .values => parts.values.isSome

/-- **The configuration of some parts.** -/
def toConfig (parts : ConfigParts) : Config where
  screens := parts.screens.getD .empty
  rootSize := parts.rootSize.getD (.ofNat defaultRootSize)
  values := parts.values.getD .empty

end ConfigParts

end FluidClamp

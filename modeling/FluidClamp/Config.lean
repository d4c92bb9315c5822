/-
  FluidClamp.Config
  ─────────────────
  **THE CONFIGURATION.**

  A configuration names screens, says how many pixels make one `rem`, and gives
  names to shorthands, each under the theme key of the utilities that may use it.
  A named shorthand is written whole or as a list of anchors, which comes to the
  same once the anchors are joined by commas.
-/
import FluidClamp.Shorthand

namespace FluidClamp

/-! ## §1. Named shorthands. -/

/-- A shorthand as it stands in a configuration. -/
inductive NamedShorthand where
  | whole (text : String)
  | anchors (texts : List String)
  deriving Repr, DecidableEq

/-- The shorthand that is meant. -/
def NamedShorthand.text : NamedShorthand → String
  | .whole text => text
  | .anchors texts => String.intercalate "," texts

/-! ## §2. The configuration. -/

/-- Everything that can be configured. -/
structure Config where
  /-- The widths of screens by name; a name may stand without one. -/
  screens : OrderedMap String (Option String) := .empty
  /-- How many pixels make one `rem`. -/
  rootSize : Binary64 := .ofNat defaultRootSize
  /-- Shorthands by theme key and name. -/
  values : OrderedMap String (OrderedMap String NamedShorthand) := .empty
  deriving DecidableEq

namespace Config

/-- A root font size is finite and positive. -/
def isRootSize (size : Binary64) : Bool := size.isFinite && Binary64.zero.lt size

/-- **The check that every configuration file passes.** -/
def isValid (config : Config) : Bool := isRootSize config.rootSize

/-- The table of the configured screens. -/
def screenTable (config : Config) : Screens := .ofEntries config.screens.entries

/-- The shorthand of a name under a theme key. -/
def namedShorthand? (config : Config) (themeKey name : String) : Option String :=
  (config.values.get? themeKey).bind fun names => (names.get? name).map NamedShorthand.text

end Config

end FluidClamp

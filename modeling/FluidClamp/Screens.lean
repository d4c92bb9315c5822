/-
  FluidClamp.Screens
  ──────────────────
  **NAMED SCREENS.**

  A table of screen names with the text of their widths, and two more texts for
  the screens that a shorthand leaves out.  In a list of entries the two reserved
  names stand for those defaults; an entry without a text says nothing.
-/
import FluidClamp.OrderedMap
import FluidClamp.Span

namespace FluidClamp

/-- The table of screens.  The widths are kept as they were written and read when
they are used. -/
structure Screens where
  named : OrderedMap String String
  /-- The screen of a first anchor that names none. -/
  defaultStart : Option String
  /-- The screen of a second anchor that names none. -/
  defaultFinish : Option String
  deriving DecidableEq

namespace Screens

/-! ## §1. Reserved names. -/

/-- The reserved name of each default. -/
def reservedName : Side → String
  | .start => "DEFAULT_FROM"
  | .finish => "DEFAULT_TO"

/-! ## §2. Building and asking. -/

def empty : Screens := ⟨.empty, none, none⟩

/-- Name a screen, whatever the name. -/
def insert (screens : Screens) (name width : String) : Screens :=
  { screens with named := screens.named.insert name width }

/-- Set both defaults. -/
def withDefaults (screens : Screens) (start finish : String) : Screens :=
  { screens with defaultStart := some start, defaultFinish := some finish }

/-- The default of a side. -/
def default? (screens : Screens) : Side → Option String
  | .start => screens.defaultStart
  | .finish => screens.defaultFinish

/-- The width of a name. -/
def get? (screens : Screens) (name : String) : Option String := screens.named.get? name

def contains (screens : Screens) (name : String) : Bool := screens.named.contains name

/-- One entry of a list: a default, a name, or nothing. -/
def addEntry (screens : Screens) : String × Option String → Screens
  | (_, none) => screens
  | (name, some width) =>
      if name = reservedName .start then { screens with defaultStart := some width }
      else if name = reservedName .finish then { screens with defaultFinish := some width }
      else screens.insert name width

/-- **The table of a list of entries**, later entries over earlier ones. -/
def ofEntries (entries : List (String × Option String)) : Screens :=
  entries.foldl addEntry empty

end Screens

end FluidClamp

/-
  FluidClamp.Utility
  ──────────────────
  **UTILITIES.**

  A utility turns one CSS value into the declarations of a rule.  Most give the
  value to one or more properties; some wrap it or add declarations of their own,
  and of those some apply to the children of the element, all but the first.
-/
import FluidClamp.Css.Name
import FluidClamp.Css.Rule

namespace FluidClamp

/-! ## §1. What a utility declares. -/

/-- A declaration with a place for the value. -/
inductive Template where
  /-- The value itself. -/
  | value (property : String)
  /-- The value between two texts. -/
  | wrapped (property before after : String)
  /-- The same text for every value. -/
  | fixed (property text : String)
  deriving Repr, DecidableEq

/-- The declaration for a value. -/
def Template.fill (value : String) : Template → Css.Declaration
  | .value property => ⟨property, value⟩
  | .wrapped property before after => ⟨property, before ++ value ++ after⟩
  | .fixed property text => ⟨property, text⟩

/-- What a utility declares, and where. -/
inductive UtilityBody where
  /-- Each property takes the value. -/
  | properties (names : List String)
  /-- Declarations on the element. -/
  | element (templates : List Template)
  /-- Declarations on its children after the first. -/
  | siblings (templates : List Template)
  deriving Repr, DecidableEq

/-- A utility: the name that classes have after `fluid-`, the theme key under
which named values for it are configured, and what it declares. -/
structure Utility where
  name : String
  themeKey : Option String
  body : UtilityBody
  deriving Repr, DecidableEq

/-! ## §2. The rule of a class. -/

namespace UtilityBody

/-- The declarations for a value. -/
def declarations (value : String) : UtilityBody → List Css.Declaration
  | .properties names => names.map fun name => ⟨name, value⟩
  | .element templates | .siblings templates => templates.map (Template.fill value)

/-- What follows the class in the selector. -/
def selectorTail : UtilityBody → String
  | .properties _ | .element _ => ""
  | .siblings _ => " > :not([hidden]) ~ :not([hidden])"

end UtilityBody

/-- **The rule of a class** of the utility, for a value. -/
def Utility.rule (utility : Utility) (className value : String) : Css.Rule where
  selector :=
    "." ++ String.ofList (Css.escape className.toList) ++ utility.body.selectorTail
  declarations := utility.body.declarations value

end FluidClamp

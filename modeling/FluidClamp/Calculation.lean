/-
  FluidClamp.Calculation
  ──────────────────────
  **CALCULATING ONE VALUE.**

  The value of a shorthand, with the screens and the root font size of a
  configuration file; a root font size of the request comes before that of the
  file.
-/
import FluidClamp.Config.File

namespace FluidClamp

/-- A request for the value of a shorthand. -/
structure CalculationRequest where
  shorthand : String
  /-- The path of the configuration file. -/
  config : Option String := none
  rootSize : Option Binary64 := none
  deriving Repr, DecidableEq

namespace CalculationRequest

/-- The check of what is asked for, before any file is read. -/
def check (request : CalculationRequest) : Except Failure Unit :=
  match request.rootSize with
  | some size => if Config.isRootSize size then .ok () else .error (.badRequestedRoot size)
  | none => .ok ()

/-- The configuration with the root font size of the request. -/
def adjust (request : CalculationRequest) (config : Config) : Config :=
  { config with rootSize := request.rootSize.getD config.rootSize }

/-- **The value that is asked for.** -/
def run (request : CalculationRequest) (tree : FileTree) : Except Failure String := do
  request.check
  let config ← tree.config request.config
  (request.adjust config).evaluate request.shorthand

end CalculationRequest

end FluidClamp

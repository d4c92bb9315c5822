/-
  FluidClamp.Pipe
  ───────────────
  **FROM MARKUP TO A STYLE SHEET.**

  Markup comes in as bytes, and the style sheet of the classes in it goes out.
  The configuration is read first; markup without anything but blanks gives
  nothing.
-/
import FluidClamp.Config.File
import FluidClamp.Markup

namespace FluidClamp

/-- A request for the style sheet of some markup. -/
structure PipeRequest where
  /-- The path of the configuration file. -/
  config : Option String := none
  layout : Css.Layout := .pretty
  deriving Repr, DecidableEq

/-- A style sheet with what there is to say about it. -/
structure Piped where
  css : String
  warnings : List String
  deriving Repr, DecidableEq

namespace PipeRequest

/-- The style sheet of a text. -/
def pipe (request : PipeRequest) (config : Config) (text : String) : Piped :=
  if isAllBlank text.toList then ⟨"", []⟩
  else ⟨Markup.css config request.layout text, config.warnings (Markup.classes text)⟩

/-- **The style sheet of the markup.** -/
def run (request : PipeRequest) (tree : FileTree) (markup : Bytes) : Except Failure Piped := do
  let config ← tree.config request.config
  match markup.text? with
  | none => .error .unreadableStandardInput
  | some text => return request.pipe config text

end PipeRequest

end FluidClamp

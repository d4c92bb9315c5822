/-
  FluidClamp.Failure
  ──────────────────
  **WHY A RUN FAILS.**

  The causes that can end a run, and the message of each.  What the operating
  system has to say about a file is not part of a message.
-/
import FluidClamp.Config

namespace FluidClamp

/-- The causes that can end a run. -/
inductive Failure where
  | shorthand (error : ShorthandError)
  | span (error : SpanError Binary64)
  /-- The root font size of a configuration is not a positive number. -/
  | badConfiguredRoot (size : Binary64)
  | unreadableConfig (path : String)
  /-- The name of a configuration file does not end like one. -/
  | unsupportedConfig (path : String)
  | malformedJson
  | malformedYaml
  /-- The root font size on the command line is not a positive number. -/
  | badRequestedRoot (size : Binary64)
  | noInputPattern
  | noJobs
  | malformedPattern
  | noFilesFound
  /-- The directory of the output cannot be made. -/
  | fileSystem
  | unwritableOutput (path : String)
  | unreadableStandardInput
  deriving Repr, DecidableEq

namespace Failure

/-- What is wrong with a request, if that is why a run fails. -/
def requestFault? : Failure → Option String
  | .badRequestedRoot size =>
      some ("Root font size must be a positive number, got " ++ size.plainText)
  | .noInputPattern => some "At least one input pattern must be provided"
  | .noJobs => some "Number of jobs must be at least 1"
  | _ => none

/-- The message of a failure. -/
def message (failure : Failure) : String :=
  match failure with
  | .shorthand error => error.message
  | .span error => error.message
  | .badConfiguredRoot size =>
      "Configuration error: root_font_size_pixel must be a positive number, got " ++
        size.plainText
  | .unreadableConfig path => "Configuration error: Failed to read config file " ++ path
  | .unsupportedConfig path =>
      "Configuration error: Unsupported config file format: " ++ path ++
        ". Use .yaml, .yml, or .json"
  | .malformedJson => "JSON serialization error"
  | .malformedYaml => "YAML parsing error"
  | .badRequestedRoot _ | .noInputPattern | .noJobs =>
      "Invalid input: " ++ failure.requestFault?.getD ""
  | .malformedPattern => "Pattern error"
  | .noFilesFound => "No files found matching the provided patterns"
  | .fileSystem => "IO error"
  | .unwritableOutput path => "Failed to write output to " ++ path
  | .unreadableStandardInput => "Input error: Failed to read from stdin"

end Failure

/-- The check of a configuration as a step of a run. -/
def Config.check (config : Config) : Except Failure Unit :=
  if config.isValid then .ok () else .error (.badConfiguredRoot config.rootSize)

/-- **The value of a shorthand** over a table of screens, where `root` pixels make
one `rem`. -/
def Screens.evaluate (screens : Screens) (root : Binary64) (shorthand : String) :
    Except Failure String :=
  match Span.parse screens shorthand with
  | .error e => .error (.shorthand e)
  | .ok span =>
      match span.css root with
      | .error e => .error (.span e)
      | .ok css => .ok css

/-- The value of a shorthand under a configuration. -/
def Config.evaluate (config : Config) (shorthand : String) : Except Failure String :=
  config.screenTable.evaluate config.rootSize shorthand

end FluidClamp

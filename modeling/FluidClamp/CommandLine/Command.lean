/-
  FluidClamp.CommandLine.Command
  ──────────────────────────────
  **COMMANDS.**

  The first word of a command line names a command, and its arguments make the
  request that it carries out.  In front of a command only `--help` and `--version`
  mean something, and `help` is a command of its own, as `clap` 4 adds them to
  commands with a version.
-/
import FluidClamp.Calculation
import FluidClamp.CommandLine.Arguments
import FluidClamp.Generation
import FluidClamp.Pipe

namespace FluidClamp.CommandLine

/-! ## §1. Requests. -/

/-- What a command line asks for. -/
inductive Command where
  | calculate (request : CalculationRequest)
  | generate (request : GenerationRequest)
  | pipe (request : PipeRequest)
  deriving Repr, DecidableEq

namespace Command

/-- The path of the configuration file. -/
def configPath? : Command → Option String
  | .calculate request => request.config
  | .generate request => request.config
  | .pipe request => request.config

/-- The patterns of the files that the command looks for. -/
def patterns : Command → List String
  | .generate request => request.inputs
  | .calculate _ | .pipe _ => []

/-- Whether the command reads the standard input. -/
def readsInput : Command → Bool
  | .pipe _ => true
  | .calculate _ | .generate _ => false

end Command

namespace Arguments

/-- The layout that is asked for. -/
def layout (arguments : Arguments) : Css.Layout :=
  if arguments.has .minify then .minified else .pretty

/-- **The request that arguments make.** -/
def toCommand (arguments : Arguments) : Subcommand → Command
  | .calculate => .calculate
      { shorthand := arguments.shorthand.getD ""
        config := arguments.value? .config
        rootSize := (arguments.value? .rootSize).bind number? }
  | .generate => .generate
      { inputs := arguments.values .inputs
        excludes := arguments.values .excludes
        output := (arguments.value? .output).getD ""
        config := arguments.value? .config
        layout := arguments.layout
        verbose := arguments.has .verbose
        jobs := (arguments.value? .jobs).bind count?
        dryRun := arguments.has .dryRun }
  | .pipe => .pipe { config := arguments.value? .config, layout := arguments.layout }

end Arguments

/-! ## §2. Command lines. -/

namespace Command

/-- The name of the command that explains the others. -/
def helpName : String := "help"

/-- Whether a word names a command. -/
def isName (word : String) : Bool :=
  decide (word = helpName) || (Subcommand.ofName? word).isSome

/-- What is to be explained: a command, which may be the explanation itself. -/
def readTopic : List String → Refusal
  | [] => .helpAsked none
  | word :: rest =>
      match Subcommand.ofName? word with
      | some command => if rest = [] then .helpAsked (some command) else .unknownCommand
      | none => if word = helpName ∧ rest = [] then .helpAsked none else .unknownCommand

/-- Letters in front of any command. -/
def readLetters : List Char → Refusal
  | 'h' :: _ => .helpAsked none
  | 'V' :: _ => .versionAsked
  | _ => .unknownArgument

/-- A name behind two dashes in front of any command. -/
def readName (text : List Char) : Refusal :=
  let name := text.takeWhile fun c => decide (c ≠ '=')
  let asked : Option Refusal :=
    if name = helpName.toList then some (.helpAsked none)
    else if name = "version".toList then some .versionAsked
    else none
  match asked with
  | none => .unknownArgument
  | some asked => if name = text then asked else .superfluousValue

/-- **Read a command line.** -/
def read (fallback : Switch → Option String) : List String → Except Refusal Command
  | [] => .error .nothingAsked
  | ["--"] => .error .nothingAsked
  | "--" :: word :: _ => .error (if isName word then .unknownArgument else .unknownCommand)
  | word :: rest =>
      match Subcommand.ofName? word with
      | some command => do
          return (← Arguments.read command fallback rest).toCommand command
      | none =>
          if word = helpName then .error (readTopic rest)
          else
            match word.toList with
            | '-' :: '-' :: name => .error (readName name)
            | '-' :: letter :: letters => .error (readLetters (letter :: letters))
            | _ => .error .unknownCommand

end Command

end FluidClamp.CommandLine

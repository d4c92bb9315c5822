/-
  FluidClamp.CommandLine.Help
  ───────────────────────────
  **EXPLANATIONS.**

  The texts that explain the commands and their switches, in columns, and what is
  said about a command line that is refused.

  The explanations have the order and the parts of those that `clap` 4 writes, but
  are neither broken to the width of a terminal nor coloured; of a refusal only its
  kind is said, without the argument, the usage and the advice that follow there.
-/
import FluidClamp.CommandLine.Arguments

namespace FluidClamp.CommandLine

/-! ## §1. Columns. -/

/-- Lines of two columns. -/
def columns (rows : List (String × String)) : String :=
  let width := rows.foldl (fun width row => max width row.1.length) 0
  String.join (rows.map fun row =>
    "  " ++ row.1 ++ String.ofList (List.replicate (width + 2 - row.1.length) ' ') ++ row.2 ++ "\n")

/-- A headed part of an explanation; nothing without rows. -/
def headed (heading : String) (rows : List (String × String)) : String :=
  if rows = [] then "" else "\n" ++ heading ++ ":\n" ++ columns rows

/-! ## §2. Explanations. -/

def programName : String := "fluid-sizing"

/-- The variable that gives a root font size. -/
def rootSizeVariable : String := "FLUID_SIZING_ROOT_FONT_SIZE"

def versionText : String := programName ++ " 0.2.0\n"

/-- A switch with what it is for. -/
def Switch.row (switch : Switch) : String × String :=
  let letter := (switch.letter?.map fun c => "-" ++ String.singleton c ++ ", ").getD "    "
  let value := (switch.valueName?.map (" " ++ ·)).getD ""
  let source :=
    if switch = .rootSize then " [env: " ++ rootSizeVariable ++ "=]" else ""
  (letter ++ "--" ++ switch.name ++ value, switch.purpose ++ source)

/-- How the command is written. -/
def Subcommand.usage (command : Subcommand) : String :=
  programName ++ " " ++ command.name ++ " [OPTIONS]" ++
    String.join (command.required.map fun switch =>
      " --" ++ switch.name ++ (switch.valueName?.map (" " ++ ·)).getD "") ++
    if command.takesShorthand then " <SHORTHAND>" else ""

/-- The explanation of one command. -/
def Subcommand.help (command : Subcommand) : String :=
  command.purpose ++ "\n\nUsage: " ++ command.usage ++ "\n" ++
    headed "Arguments"
      (if command.takesShorthand then
        [("<SHORTHAND>", "Shorthand such as \"768px 32px, 1280px 64px\"")] else []) ++
    headed "Options" (command.switches.map Switch.row)

/-- The explanation of all commands. -/
def help : String :=
  "Fluid CSS clamp() sizing utilities generated from breakpoint/size shorthands\n\nUsage: " ++
    programName ++ " <COMMAND>\n" ++
    headed "Commands"
      ((Subcommand.all.map fun command => (command.name, command.purpose)) ++
        [("help", "Print this message or the help of the given subcommand(s)")]) ++
    headed "Options" [("-h, --help", "Print help"), ("-V, --version", "Print version")]

/-! ## §3. Refusals. -/

namespace Refusal

/-- What is printed because it was asked for. -/
def answer? : Refusal → Option String
  | .helpAsked none => some CommandLine.help
  | .helpAsked (some command) => some command.help
  | .versionAsked => some versionText
  | _ => none

/-- What is wrong with a command line. -/
def complaint : Refusal → String
  | .unknownArgument => "error: unexpected argument found"
  | .missingArgument => "error: a required argument was not provided"
  | .missingValue => "error: a value is required but none was supplied"
  | .badValue => "error: invalid value"
  | .superfluousValue => "error: unexpected value found"
  | .repeatedSwitch => "error: an argument cannot be used multiple times"
  | .unknownCommand => "error: unrecognized subcommand"
  | .nothingAsked => CommandLine.help
  | .helpAsked _ | .versionAsked => ""

end Refusal

end FluidClamp.CommandLine

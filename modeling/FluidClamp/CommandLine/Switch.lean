/-
  FluidClamp.CommandLine.Switch
  ─────────────────────────────
  **THE COMMANDS AND THEIR SWITCHES.**

  What the words of a command line may be: the names of the commands, the
  switches of each with their names and letters, and what stands behind a switch.

  The names, letters and values are declared for the parser of `clap` 4, whose
  rules the command line follows (`Arguments`).  Numbers are those that its value
  parsers take: a count is decimal digits of 64 bits, perhaps behind a plus, and a
  size any floating-point word, with infinities and not-a-number among them.
-/
import FluidClamp.Number.Numeral

namespace FluidClamp.CommandLine

/-! ## §1. Values of switches. -/

/-- What the text behind a switch has to be. -/
inductive ValueKind where
  /-- Any text. -/
  | text
  /-- A text that is not empty. -/
  | path
  /-- A number of 64 bits. -/
  | count
  /-- A floating-point number. -/
  | number
  deriving Repr, DecidableEq

/-- What stands behind a switch. -/
inductive SwitchKind where
  /-- Nothing; the switch stands at most once. -/
  | flag
  /-- Nothing; the switch asks for an explanation. -/
  | help
  /-- One value; the switch stands at most once. -/
  | single (kind : ValueKind)
  /-- At least some number of texts; the switch may be repeated. -/
  | several (least : Nat)
  deriving Repr, DecidableEq

/-- The least number of values behind a switch. -/
def SwitchKind.least : SwitchKind → Nat
  | .flag | .help => 0
  | .single _ => 1
  | .several least => least

/-- Whether one more value may follow some. -/
def SwitchKind.takesMore : SwitchKind → Nat → Bool
  | .flag, _ | .help, _ => false
  | .single _, n => n == 0
  | .several _, _ => true

/-- A number in decimal digits, perhaps with a plus sign, of 64 bits. -/
def count? (text : String) : Option Nat :=
  match Sign.split text.toList with
  | (some .minus, _) | (_, []) => none
  | (_, digits) =>
      let n := Numeral.ofDigits digits
      if digits.all Char.isDigit ∧ n < 0x10000000000000000 then some n else none

/-- A floating-point number. -/
def number? (text : String) : Option Binary64 := Binary64.ofText? text.toList

/-! ## §2. Switches. -/

/-- The switches of all commands. -/
inductive Switch where
  | config
  | rootSize
  | inputs
  | output
  | minify
  | verbose
  | jobs
  | excludes
  | dryRun
  | help
  deriving Repr, DecidableEq

namespace Switch

/-- The name behind two dashes. -/
def name : Switch → String
  | .config => "config"
  | .rootSize => "root-font-size"
  | .inputs => "input"
  | .output => "output-css"
  | .minify => "minify"
  | .verbose => "verbose"
  | .jobs => "jobs"
  | .excludes => "exclude"
  | .dryRun => "dry-run"
  | .help => "help"

/-- The letter behind one dash. -/
def letter? : Switch → Option Char
  | .config => some 'c'
  | .inputs => some 'i'
  | .output => some 'o'
  | .verbose => some 'v'
  | .jobs => some 'j'
  | .excludes => some 'e'
  | .help => some 'h'
  | .rootSize | .minify | .dryRun => none

def kind : Switch → SwitchKind
  | .config | .output => .single .path
  | .rootSize => .single .number
  | .jobs => .single .count
  | .inputs => .several 1
  | .excludes => .several 0
  | .minify | .verbose | .dryRun => .flag
  | .help => .help

/-- What the values are called in explanations. -/
def valueName? : Switch → Option String
  | .config | .output => some "<PATH>"
  | .rootSize => some "<PIXELS>"
  | .jobs => some "<NUM>"
  | .inputs => some "<PATTERN>..."
  | .excludes => some "[<PATTERN>...]"
  | .minify | .verbose | .dryRun | .help => none

/-- What the switch is for. -/
def purpose : Switch → String
  | .config => "Path to configuration file (YAML or JSON format)"
  | .rootSize => "Pixels per rem used for unit conversion (defaults to 16)"
  | .inputs => "Input file patterns to scan for fluid utility classes"
  | .output => "Path where the generated CSS file will be written"
  | .minify => "Enable minification of the output CSS"
  | .verbose => "Enable verbose output"
  | .jobs => "Number of parallel threads to use (defaults to number of CPU cores)"
  | .excludes => "Patterns to exclude from scanning"
  | .dryRun => "Perform generation but don't write the output file"
  | .help => "Print help"

end Switch

/-! ## §3. Commands. -/

/-- The commands. -/
inductive Subcommand where
  | calculate
  | generate
  | pipe
  deriving Repr, DecidableEq

namespace Subcommand

def all : List Subcommand := [.calculate, .generate, .pipe]

def name : Subcommand → String
  | .calculate => "calc"
  | .generate => "generate"
  | .pipe => "pipe"

/-- The command of a name. -/
def ofName? (name : String) : Option Subcommand :=
  all.find? fun command => decide (command.name = name)

/-- What the command does. -/
def purpose : Subcommand → String
  | .calculate => "Compute the CSS value for a single shorthand"
  | .generate => "Scan source files for fluid utility classes and write their CSS"
  | .pipe => "Read markup from stdin and output CSS to stdout"

/-- The switches of the command. -/
def switches : Subcommand → List Switch
  | .calculate => [.config, .rootSize, .help]
  | .generate =>
      [.inputs, .output, .config, .minify, .verbose, .jobs, .excludes, .dryRun, .help]
  | .pipe => [.config, .minify, .help]

/-- The switches that must not be missing. -/
def required : Subcommand → List Switch
  | .generate => [.inputs, .output]
  | .calculate | .pipe => []

/-- Whether a word may stand on its own: the shorthand. -/
def takesShorthand : Subcommand → Bool
  | .calculate => true
  | .generate | .pipe => false

/-- The switch of a name. -/
def named? (command : Subcommand) (name : String) : Option Switch :=
  command.switches.find? fun switch => decide (switch.name = name)

/-- The switch of a letter. -/
def lettered? (command : Subcommand) (letter : Char) : Option Switch :=
  command.switches.find? fun switch => decide (switch.letter? = some letter)

end Subcommand

end FluidClamp.CommandLine

/-
  FluidClamp.CommandLine.Arguments
  ────────────────────────────────
  **THE ARGUMENTS OF A COMMAND.**

  Arguments are read from the left.  One that begins with a dash is a switch by
  its name, or some switches by their letters, and a value may be attached to it:

      --name value   --name=value   -n value   -nvalue   -n=value

  The others are values of the switch before them as long as it takes more, and
  behind two dashes no argument is a switch.  The values of a switch are checked
  when the next switch begins, so that of two faults the one that stops the
  reading first is reported.

  These are the rules of `clap` 4 as it is set up without further settings: an
  argument with a dash in front is a switch also where a value is expected, a single
  dash is a word, names are not shortened, a switch with one value stands once, and
  the environment is asked where a switch is missing.  Words are texts in Unicode.
  Which of the rules of other settings would apply is not said, as no switch here has
  them: values cut at delimiters, negative numbers as values, groups and conflicts.
-/
import FluidClamp.CommandLine.Switch
import FluidClamp.Text.Cut

namespace FluidClamp.CommandLine

/-! ## §1. Why a command line is refused. -/

/-- Why no command is carried out. -/
inductive Refusal where
  | unknownArgument
  | missingArgument
  /-- A switch without its value, or with an empty path. -/
  | missingValue
  /-- A value that is not a number. -/
  | badValue
  /-- A value attached to a switch that takes none. -/
  | superfluousValue
  | repeatedSwitch
  | unknownCommand
  /-- There are no arguments at all. -/
  | nothingAsked
  /-- An explanation is asked for, of one command or of all. -/
  | helpAsked (command : Option Subcommand)
  | versionAsked
  deriving Repr, DecidableEq

/-- Check a value. -/
def ValueKind.check (kind : ValueKind) (value : String) : Except Refusal Unit :=
  match kind with
  | .text => .ok ()
  | .path => if value = "" then .error .missingValue else .ok ()
  | .count => if (count? value).isSome then .ok () else .error .badValue
  | .number => if (number? value).isSome then .ok () else .error .badValue

/-- Check the values of a switch. -/
def SwitchKind.check (kind : SwitchKind) (values : List String) : Except Refusal Unit :=
  match kind with
  | .single kind => values.forM kind.check
  | .flag | .help | .several _ => .ok ()

/-! ## §2. Arguments. -/

/-- The arguments that were read. -/
structure Arguments where
  /-- The switches with their values, in their order. -/
  given : List (Switch × List String)
  /-- The word that stood on its own. -/
  shorthand : Option String
  deriving Repr, DecidableEq

namespace Arguments

/-- Whether a switch was given. -/
def has (arguments : Arguments) (switch : Switch) : Bool :=
  arguments.given.any fun given => decide (given.1 = switch)

/-- All values of a switch. -/
def values (arguments : Arguments) (switch : Switch) : List String :=
  arguments.given.flatMap fun given => if given.1 = switch then given.2 else []

/-- The value of a switch. -/
def value? (arguments : Arguments) (switch : Switch) : Option String :=
  (arguments.values switch).head?

/-- Add a switch with its values. -/
def add (arguments : Arguments) (switch : Switch) (values : List String) :
    Except Refusal Arguments := do
  if values.length < switch.kind.least then throw .missingValue
  match switch.kind with
  | .several _ => pure ()
  | .flag | .help | .single _ => if arguments.has switch then throw .repeatedSwitch
  switch.kind.check values
  return { arguments with given := arguments.given ++ [(switch, values)] }

end Arguments

/-! ## §3. Reading. -/

/-- Arguments while they are read. -/
structure Reading where
  arguments : Arguments
  /-- The last switch with its values, as long as they are not checked. -/
  pending : Option (Switch × List String)
  deriving Repr, DecidableEq

namespace Reading

/-- Nothing was read. -/
def start : Reading := ⟨⟨[], none⟩, none⟩

/-- Check the values of the last switch. -/
def settle (reading : Reading) : Except Refusal Reading :=
  match reading.pending with
  | none => .ok reading
  | some (switch, values) => do return ⟨← reading.arguments.add switch values, none⟩

/-- A switch with its values. -/
def add (reading : Reading) (switch : Switch) (values : List String) : Except Refusal Reading := do
  let reading ← reading.settle
  return { reading with arguments := ← reading.arguments.add switch values }

/-- A switch whose values follow. -/
def await (reading : Reading) (switch : Switch) : Except Refusal Reading := do
  return { ← reading.settle with pending := some (switch, []) }

/-- A switch without values. -/
def turnOn (command : Subcommand) (reading : Reading) (switch : Switch) :
    Except Refusal Reading := do
  if switch.kind = .help then
    let _ ← reading.settle
    throw (.helpAsked (some command))
  else reading.add switch []

/-- Whether values follow a switch. -/
def takesValues (switch : Switch) : Bool := switch.kind.takesMore 0

/-- Behind two dashes: a name, and a value behind an equals sign. -/
def readName (command : Subcommand) (reading : Reading) (text : List Char) :
    Except Refusal Reading :=
  let (name, value) :=
    match cutAt? ['='] text with
    | some (name, value) => (name, some (String.ofList value))
    | none => (text, none)
  match command.named? (String.ofList name), value with
  | none, _ => .error .unknownArgument
  | some switch, some value =>
      if takesValues switch then reading.add switch [value] else .error .superfluousValue
  | some switch, none =>
      if takesValues switch then reading.await switch else turnOn command reading switch

/-- Behind one dash: letters, and perhaps a value. -/
def readLetters (command : Subcommand) (reading : Reading) : List Char → Except Refusal Reading
  | [] => .ok reading
  | letter :: rest =>
      match command.lettered? letter with
      | none => .error .unknownArgument
      | some switch =>
          if takesValues switch then
            match rest with
            | [] => reading.await switch
            | '=' :: value => reading.add switch [String.ofList value]
            | value => reading.add switch [String.ofList value]
          else do
            let reading ← turnOn command reading switch
            readLetters command reading rest

/-- A word that stands on its own. -/
def readWord (command : Subcommand) (reading : Reading) (word : String) : Except Refusal Reading :=
  if command.takesShorthand ∧ reading.arguments.shorthand = none then do
    let reading ← reading.settle
    return { reading with arguments := { reading.arguments with shorthand := some word } }
  else .error .unknownArgument

/-- A word behind a switch, or on its own. -/
def readValue (command : Subcommand) (reading : Reading) (word : String) :
    Except Refusal Reading :=
  match reading.pending with
  | some (switch, values) =>
      if switch.kind.takesMore values.length then
        .ok { reading with pending := some (switch, values ++ [word]) }
      else readWord command reading word
  | none => readWord command reading word

/-- Read one argument. -/
def readArgument (command : Subcommand) (reading : Reading) (argument : String) :
    Except Refusal Reading :=
  match argument.toList with
  | '-' :: '-' :: name => readName command reading name
  | '-' :: letter :: letters => readLetters command reading (letter :: letters)
  | _ => readValue command reading argument

/-- Read arguments up to two dashes, and the words behind them. -/
def readAll (command : Subcommand) : Reading → List String → Except Refusal Reading
  | reading, [] => .ok reading
  | reading, argument :: rest => do
      if argument = "--" then rest.foldlM (readWord command) reading
      else readAll command (← readArgument command reading argument) rest

end Reading

/-- **The arguments of a command**; `fallback` gives a switch that is not among
them a value. -/
def Arguments.read (command : Subcommand) (fallback : Switch → Option String)
    (words : List String) : Except Refusal Arguments := do
  let reading ← Reading.readAll command .start words
  let reading ← reading.settle
  let add (arguments : Arguments) (switch : Switch) : Except Refusal Arguments :=
    match fallback switch with
    | some value => if arguments.has switch then .ok arguments else arguments.add switch [value]
    | none => .ok arguments
  let arguments ← command.switches.foldlM add reading.arguments
  if (command.takesShorthand ∧ arguments.shorthand = none) ∨
      !(command.required.all arguments.has) then
    throw .missingArgument
  else return arguments

end FluidClamp.CommandLine

/-
  FluidClamp.Program
  ──────────────────
  **A RUN OF THE PROGRAM.**

  What a command line prints, with what code it ends and how it changes the files:
  `Program.run` says it of any words, files and standard input, on a system that
  carries every step out.
-/
import FluidClamp.CommandLine.Command
import FluidClamp.CommandLine.Help

namespace FluidClamp

open CommandLine

/-! ## §1. What a run comes to. -/

/-- What a run prints and leaves. -/
structure Program.Outcome where
  /-- The exit code. -/
  code : Nat
  output : String
  /-- What is printed for the user beside the output. -/
  notices : List String
  warnings : List String
  /-- The files afterwards. -/
  tree : FileTree
  /-- The steps that were tried to get there. -/
  steps : List FileStep
  deriving DecidableEq

namespace Program

/-- A run that changes no file and succeeds. -/
def printing (tree : FileTree) (output : String) (warnings : List String) : Outcome :=
  ⟨0, output, [], warnings, tree, []⟩

/-- A run that changes no file and fails. -/
def failing (tree : FileTree) (failure : Failure) : Outcome :=
  ⟨1, "", ["Error: " ++ failure.message], [], tree, []⟩

/-- A run whose command line is refused. -/
def refusing (tree : FileTree) (refusal : Refusal) : Outcome :=
  match refusal.answer? with
  | some answer => printing tree answer []
  | none => ⟨2, "", [refusal.complaint], [], tree, []⟩

/-! ## §2. Commands. -/

/-- Calculate a value and print it. -/
def calculate (tree : FileTree) (request : CalculationRequest) : Outcome :=
  match request.run tree with
  | .ok value => printing tree (value ++ "\n") []
  | .error failure => failing tree failure

/-- Make the style sheet of the standard input and print it. -/
def pipe (tree : FileTree) (request : PipeRequest) (input : Bytes) : Outcome :=
  match request.run tree input with
  | .ok piped => printing tree piped.css piped.warnings
  | .error failure => failing tree failure

/-- What is said about a style sheet that was written. -/
def report (generation : Generation) : List String :=
  ["Generation successful!", "  - Processed " ++ toString generation.files ++ " files",
    "  - Generated " ++ toString generation.classes ++ " fluid utilities"]

/-- Generate a style sheet and write it, or print it in a dry run. -/
def generate (tree : FileTree) (request : GenerationRequest) : Outcome :=
  let outcome := request.run tree
  match outcome.result with
  | .error failure =>
      { failing outcome.tree failure with warnings := outcome.warnings, steps := outcome.steps }
  | .ok generation =>
      { printing outcome.tree (if request.dryRun then generation.css else "") outcome.warnings with
        notices := if request.dryRun then [] else report generation
        steps := outcome.steps }

/-- **Carry out a command.** -/
def carryOut (tree : FileTree) (input : Bytes) : Command → Outcome
  | .calculate request => calculate tree request
  | .generate request => generate tree request
  | .pipe request => pipe tree request input

/-! ## §3. Command lines. -/

/-- The values that switches have without being given. -/
def fallback (rootSize : Option String) : Switch → Option String
  | .rootSize => rootSize
  | _ => none

/-- **Run the program** on the words of a command line; `rootSize` is the root font
size of the environment. -/
def run (words : List String) (rootSize : Option String) (tree : FileTree) (input : Bytes) :
    Outcome :=
  match Command.read (fallback rootSize) words with
  | .error refusal => refusing tree refusal
  | .ok command => carryOut tree input command

end Program

end FluidClamp

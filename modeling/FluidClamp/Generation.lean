/-
  FluidClamp.Generation
  ─────────────────────
  **GENERATING A STYLE SHEET FROM FILES.**

  First everything is read and the style sheet made (`prepare`), which changes no
  file.  Then the style sheet is written: the directories of the output are made,
  and a temporary file beside it is filled and moved to its place (`writeSteps`).
  Each of these steps can fail, because the tree does not admit it or because the
  system lets it fail; the run ends there and takes nothing back.
-/
import FluidClamp.Config.File
import FluidClamp.Files.Collect
import FluidClamp.Files.Mentions

namespace FluidClamp

/-! ## §1. Requests. -/

/-- A request for the style sheet of some files. -/
structure GenerationRequest where
  /-- The patterns of the files. -/
  inputs : List String
  /-- The patterns of files that are passed over. -/
  excludes : List String := []
  output : String
  /-- The path of the configuration file. -/
  config : Option String := none
  layout : Css.Layout := .pretty
  verbose : Bool := false
  jobs : Option Nat := none
  /-- Nothing is written. -/
  dryRun : Bool := false
  deriving Repr, DecidableEq

/-- A style sheet and what it was made from. -/
structure Generation where
  css : String
  /-- The number of classes with a rule. -/
  classes : Nat
  /-- The number of classes that the files mention. -/
  candidates : Nat
  files : Nat
  warnings : List String
  deriving Repr, DecidableEq

/-! ## §2. The style sheet. -/

namespace Generation

/-- The style sheet of some files under a configuration. -/
def ofFiles (tree : FileTree) (config : Config) (layout : Css.Layout) (paths : List String) :
    Generation :=
  let mentioned := tree.allMentions paths
  let rules := ((RuleSet.ofConfig config).addAll mentioned).1
  { css := rules.css layout
    classes := rules.size
    candidates := mentioned.length
    files := paths.length
    warnings := tree.readWarnings paths ++ config.warnings mentioned }

end Generation

namespace GenerationRequest

/-- The check of what is asked for, before any file is read. -/
def check (request : GenerationRequest) : Except Failure Unit :=
  if request.inputs = [] then .error .noInputPattern
  else if request.jobs = some 0 then .error .noJobs
  else .ok ()

/-- The style sheet that is asked for. -/
def prepare (request : GenerationRequest) (tree : FileTree) : Except Failure Generation := do
  request.check
  let config ← tree.config request.config
  let paths ← tree.collect request.inputs request.excludes
  if paths = [] then .error .noFilesFound
  else return .ofFiles tree config request.layout paths

/-! ## §3. Writing. -/

/-- The file that is written before it takes the place of the output. -/
def temporaryPath (path : String) : String := Path.withExtension path "tmp"

/-- The steps that write a file all at once. -/
def writeSteps (path : String) (content : Bytes) : List FileStep :=
  let temporary := temporaryPath path
  [.create temporary, .append temporary content, .sync temporary, .rename temporary path]

/-- The step before them. -/
def directoryStep (path : String) : FileStep := .makeDirectories (Path.parentComponents path)

/-- Write a file: the tree afterwards, and why the file was not written. -/
def write (tree : FileTree) (path : String) (content : Bytes) (faults : FileStep.Faults := []) :
    FileTree × Option Failure :=
  match (directoryStep path).attempt tree (faults.headD none) with
  | (tree, false) => (tree, some .fileSystem)
  | (tree, true) =>
      match FileStep.runAll tree (writeSteps path content) faults.tail with
      | (tree, false) => (tree, some (.unwritableOutput path))
      | (tree, true) => (tree, none)

/-! ## §4. The whole run. -/

/-- What a run of a request comes to. -/
structure Outcome where
  result : Except Failure Generation
  /-- The files afterwards. -/
  tree : FileTree
  warnings : List String
  /-- The steps that were tried. -/
  steps : List FileStep

/-- **Carry out a request**, on a system that may let the steps of writing fail. -/
def run (request : GenerationRequest) (tree : FileTree) (faults : FileStep.Faults := []) :
    Outcome :=
  match request.prepare tree with
  | .error failure => ⟨.error failure, tree, [], []⟩
  | .ok generation =>
      if request.dryRun then ⟨.ok generation, tree, generation.warnings, []⟩
      else
        let content := Bytes.ofText generation.css
        let steps := directoryStep request.output :: writeSteps request.output content
        match write tree request.output content faults with
        | (tree, some failure) => ⟨.error failure, tree, generation.warnings, steps⟩
        | (tree, none) => ⟨.ok generation, tree, generation.warnings, steps⟩

end GenerationRequest

end FluidClamp

/-
  FluidClamp.Files.Collect
  ────────────────────────
  **COLLECTING FILES.**

  Some patterns select paths and others exclude them.  The paths are collected in
  the order of the patterns that select them; a directory, an excluded path and
  one that was collected before are passed over.  If any pattern is malformed,
  nothing is collected.

  What a pattern selects and excludes is left open in `collectPaths`, and
  `FileTree.collect` takes it from a tree of files.
-/
import FluidClamp.Failure
import FluidClamp.Files.Search

namespace FluidClamp

/-! ## §1. Collecting paths. -/

/-- Whether two paths have the same components. -/
def samePath (a b : String) : Bool := decide (Path.components a = Path.components b)

/-- Add a path to those collected before. -/
def keepPath (isPassed : String → Bool) (paths : List String) (path : String) : List String :=
  if isPassed path || paths.any (samePath path) then paths else paths ++ [path]

/-- **Collect paths.**  `select?` gives the paths of a pattern and `exclude?` the
test of one, if it is well formed. -/
def collectPaths (select? : String → Option (List String))
    (exclude? : String → Option (String → Bool)) (isDirectory : String → Bool)
    (patterns excludes : List String) : Option (List String) := do
  let tests ← excludes.mapM exclude?
  let isPassed (path : String) : Bool := isDirectory path || tests.any fun test => test path
  patterns.foldlM (fun paths pattern => do
    let found ← select? pattern
    return found.foldl (keepPath isPassed) paths) []

/-! ## §2. Collecting files. -/

namespace FileTree

/-- **The files that some patterns select and others do not exclude.** -/
def collect (tree : FileTree) (patterns excludes : List String) : Except Failure (List String) :=
  match collectPaths
      (fun pattern => (PathPattern.parse? pattern).map tree.paths)
      (fun pattern => (Pattern.parse? pattern.toList).map Pattern.accepts)
      tree.isDirectory patterns excludes with
  | none => .error .malformedPattern
  | some paths => .ok paths

end FileTree

end FluidClamp

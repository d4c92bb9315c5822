/-
  FluidClamp.Files.Mentions
  ─────────────────────────
  **THE CLASSES THAT FILES MENTION.**

  Files are read one after the other, and each class is listed where it is first
  mentioned.  A file that cannot be read, or is not text, mentions nothing.
-/
import FluidClamp.Files.Tree
import FluidClamp.Markup

namespace FluidClamp.FileTree

/-- The classes that the file at a path mentions. -/
def mentions (tree : FileTree) (path : String) : List String :=
  match tree.readText? path with
  | some text => Markup.classes text
  | none => []

/-- **The classes that some files mention**, each once. -/
def allMentions (tree : FileTree) (paths : List String) : List String :=
  (paths.flatMap tree.mentions).eraseDups

/-- The warnings for files that are not text. -/
def readWarnings (tree : FileTree) (paths : List String) : List String :=
  (paths.filter fun path => (tree.readText? path).isNone).map fun _ => "Skipping file"

end FluidClamp.FileTree

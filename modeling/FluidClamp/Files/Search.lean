/-
  FluidClamp.Files.Search
  ───────────────────────
  **THE PATHS THAT A PATTERN STANDS FOR.**

  A pattern for paths is cut at its slashes, and each part selects names in the
  directories that the parts before it selected.  The search begins in the working
  directory, or at the root for a pattern that begins with a slash.  Names in one
  directory come in their order, and everything below a name before the next one.
  A part without special characters is followed as it is, whether or not it is
  among the names of the directory (`.` and `..` are not).

  This is the search of `glob` 0.3 with its standard options: letters have a case,
  and a star also stands for a dot at the front.  A directory that cannot be read
  is a fault there; here every directory can be read, and there are no links.
-/
import FluidClamp.Files.Pattern
import FluidClamp.Files.Tree

namespace FluidClamp

/-! ## §1. Patterns for paths. -/

/-- A pattern for each part of a path. -/
structure PathPattern where
  /-- Whether paths start at the root of all files. -/
  absolute : Bool
  parts : List Pattern
  /-- Only directories are meant. -/
  directoriesOnly : Bool
  deriving Repr, DecidableEq

namespace PathPattern

/-- The texts between slashes; a slash at the end adds none. -/
def pieces (text : List Char) : List (List Char) :=
  let all := splitOn (fun c => decide (c = '/')) text
  if all.getLast? = some [] then all.dropLast else all

/-- **Read a pattern for paths**: the whole has to be a pattern, and each part.  A
pattern without parts, behind the slash of the root, stands for where the search
begins; so it has one part, which is empty. -/
def parse? (text : String) : Option PathPattern := do
  let _ ← Pattern.parse? text.toList
  let absolute := Path.isAbsolute text
  let below := if absolute then text.toList.drop 1 else text.toList
  let parts ← (if below = [] then [[]] else pieces below).mapM Pattern.parse?
  return ⟨absolute, parts, decide (text.toList.getLast? = some '/')⟩

end PathPattern

/-! ## §2. Searching. -/

namespace FileTree

/-- Whether a path is the working directory itself. -/
def isHere (path : String) : Bool := decide (Path.components path = ["."])

/-- The path of a name in a directory; nothing stands before a name in the working
directory. -/
def below (directory name : String) : String :=
  if isHere directory then name else Path.join directory name

/-- All paths below a directory, each before those below it; `fuel` bounds the
depth. -/
def descendants (tree : FileTree) : Nat → String → List String
  | 0, _ => []
  | fuel + 1, directory =>
      (tree.names directory).flatMap fun name =>
        let path := below directory name
        path :: if tree.isDirectory path then tree.descendants fuel path else []

/-- Whether a found path is wanted. -/
def isWanted (tree : FileTree) (directoriesOnly : Bool) (path : String) : Bool :=
  !directoriesOnly || tree.isDirectory path

/-- `.` and `..`, as far as a pattern stands for them; only one that begins with a
dot does. -/
def specialNames (pattern : Pattern) : List String :=
  if pattern.tokens.head? = some (.char '.') then
    ["..", "."].filter pattern.accepts
  else []

/-- What the parts of a pattern select from a path on. -/
def search (tree : FileTree) (directoriesOnly : Bool) : List Pattern → String → List String
  | [], path => [path].filter (tree.isWanted directoriesOnly)
  | pattern :: rest, path =>
      match pattern.literal? with
      | some literal =>
          let name := String.ofList literal
          let next := below path name
          let isThere :=
            if name = "." ∨ name = ".." then tree.isDirectory path else tree.hasPath next
          if isThere then tree.search directoriesOnly rest next else []
      | none =>
          if !tree.isDirectory path then []
          else if pattern.isRecursive then
            match rest with
            | [] =>
                (tree.descendants (tree.places.length + 1) path).filter fun found =>
                  tree.isDirectory found
            | next :: later =>
                if next.isRecursive then tree.search directoriesOnly (next :: later) path
                else
                  (tree.descendants (tree.places.length + 1) path).flatMap fun found =>
                    if (Path.fileName? found).any next.accepts then
                      tree.search directoriesOnly later found
                    else []
          else
            (specialNames pattern).flatMap (fun name =>
              tree.search directoriesOnly rest (Path.join path name)) ++
            (tree.names path).flatMap fun name =>
              if pattern.accepts name then tree.search directoriesOnly rest (below path name)
              else []

/-- **The paths that a pattern stands for**, in the order in which they are found. -/
def paths (tree : FileTree) (pattern : PathPattern) : List String :=
  tree.search pattern.directoriesOnly pattern.parts (if pattern.absolute then "/" else ".")

end FileTree

end FluidClamp

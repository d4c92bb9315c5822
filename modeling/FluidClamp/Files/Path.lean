/-
  FluidClamp.Files.Path
  ─────────────────────
  **PATHS AS TEXT.**

  A path is a text with slashes.  It is looked at in two ways: part by part, as
  it is followed in a tree of files (`parts`), and by its components, which say
  what the path is without the dots and slashes that do not matter
  (`components`).  Both begin with a slash if the path is absolute.  The name at
  its end may have an extension, which is what follows the last dot, unless the
  name begins with that dot.

  The parts are those of POSIX path resolution.  There are no drives, no other
  separator than the slash, and no paths that are not texts.
-/
import FluidClamp.Text.Blank

namespace FluidClamp.Path

/-! ## §1. Parts and components. -/

/-- Whether the path starts at the root of all files. -/
def isAbsolute (path : String) : Bool := path.toList.head? = some '/'

/-- The texts between slashes that are not empty. -/
def pieces (path : String) : List String :=
  ((splitOn (fun c => decide (c = '/')) path.toList).filter fun piece => !piece.isEmpty).map
    String.ofList

/-- The slash that an absolute path begins with, as a part of its own. -/
def root (path : String) : List String := if isAbsolute path then ["/"] else []

/-- The parts of a path in the order in which they are followed; a slash at the
end asks for a directory, like a dot. -/
def parts (path : String) : List String :=
  root path ++ pieces path ++ if path.toList.getLast? = some '/' then ["."] else []

/-- **What a path is**: its parts without the dots, except for one at the front,
after a slash if it is absolute. -/
def components (path : String) : List String :=
  if isAbsolute path then "/" :: (pieces path).filter (fun piece => decide (piece ≠ "."))
  else
    match pieces path with
    | [] => []
    | first :: rest => first :: rest.filter fun piece => decide (piece ≠ ".")

/-- The name at the end of a path, if it ends in one. -/
def fileName? (path : String) : Option String :=
  match (components path).getLast? with
  | some name => if name = "." ∨ name = ".." ∨ name = "/" then none else some name
  | none => none

/-- What lies above the last component. -/
def parentComponents (path : String) : List String := (components path).dropLast

/-- A name in a directory. -/
def join (directory name : String) : String :=
  if directory = "" ∨ directory.toList.getLast? = some '/' then directory ++ name
  else directory ++ "/" ++ name

/-! ## §2. Extensions. -/

/-- A name cut at its last dot; a dot at the front does not count. -/
def cutName (name : List Char) : List Char × Option (List Char) :=
  let reversed := name.reverse
  match reversed.dropWhile (fun c => decide (c ≠ '.')) with
  | '.' :: c :: stem =>
      ((c :: stem).reverse, some (reversed.takeWhile fun c => decide (c ≠ '.')).reverse)
  | _ => (name, none)

/-- The extension of the name at the end of a path. -/
def extension? (path : String) : Option String :=
  (fileName? path).bind fun name => (cutName name.toList).2.map String.ofList

/-- A path, read from its end, without the slashes and dots behind its name. -/
def dropTail : List Char → List Char
  | '/' :: rest => dropTail rest
  | '.' :: '/' :: rest => dropTail rest
  | path => path

/-- **The path with another extension** instead of its own; a path without a name
stays as it is. -/
def withExtension (path extension : String) : String :=
  match fileName? path with
  | none => path
  | some name =>
      let whole := (dropTail path.toList.reverse).reverse
      let directory := whole.take (whole.length - name.length)
      String.ofList (directory ++ (cutName name.toList).1) ++ "." ++ extension

end FluidClamp.Path

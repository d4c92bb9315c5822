/-
  FluidClamp.Files.Tree
  ─────────────────────
  **A TREE OF FILES.**

  A tree says for every location, the names from the root on, whether a file or a
  directory is there, and which location is the working directory.  That one and
  all directories above it, up to the root, are always there.  A path is followed
  part by part, from the working directory on:

      /        to the root, where an absolute path begins
      .        to where one is
      ..       to the directory above; above the root is the root
      a name   into the directory

  Each part but the slash has to be followed from a directory.  This is how POSIX
  resolves paths where there are no links.  Rights, links and the limit on the length
of a whole path are not part of a tree.

  Changes are made in single steps (`FileStep`).  A step that the tree does not
  admit leaves it as it is.  Beyond that the system may let any step fail, for
  reasons of its own, when some part of it was done (`Faults`).
-/
import FluidClamp.Files.Path
import FluidClamp.OrderedMap
import FluidClamp.Text.Bytes

namespace FluidClamp

/-! ## §1. Trees. -/

/-- What is at a location. -/
inductive Entry where
  | file (content : Bytes)
  | directory
  deriving Repr, DecidableEq

/-- The names that lead from the root to a file or directory. -/
abbrev Location := List String

/-- The files and directories that are known. -/
structure FileTree where
  entries : OrderedMap Location Entry
  /-- The working directory. -/
  here : Location
  deriving DecidableEq

namespace FileTree

/-- The tree with nothing but the way to a working directory. -/
def empty (here : Location := []) : FileTree := ⟨.empty, here⟩

/-- Whether the location is the working directory or a directory above it. -/
def isAbove (tree : FileTree) (location : Location) : Bool := location.isPrefixOf tree.here

/-- What is at a location; the working directory and those above are always there. -/
def entry? (tree : FileTree) (location : Location) : Option Entry :=
  if tree.isAbove location then some .directory else tree.entries.get? location

/-- Put a file or a directory at a location. -/
def put (tree : FileTree) (location : Location) (entry : Entry) : FileTree :=
  { tree with entries := tree.entries.insert location entry }

/-- Take away what is at a location. -/
def remove (tree : FileTree) (location : Location) : FileTree :=
  { tree with entries := tree.entries.erase location }

/-- The locations below the root where something is. -/
def places (tree : FileTree) : List Location :=
  (List.range tree.here.length).map (fun n => tree.here.take (n + 1)) ++
    (tree.entries.entries.map Prod.fst).filter fun location => !tree.isAbove location

/-! ## §2. Following paths. -/

/-- Whether a location is a directory. -/
def isDirectoryAt (tree : FileTree) (location : Location) : Bool :=
  tree.entry? location = some .directory

/-- A name has at most 255 bytes, none of which is zero. -/
def isName (name : String) : Bool :=
  decide (name.utf8ByteSize ≤ 255) && name.toList.all fun c => decide (c.toNat ≠ 0)

/-- Follow one part of a path. -/
def follow (tree : FileTree) (location : Location) (part : String) : Option Location :=
  if part = "/" then some []
  else if !tree.isDirectoryAt location || !isName part then none
  else if part = "." then some location
  else if part = ".." then some location.dropLast
  else some (location ++ [part])

/-- **Where a path leads**, whether or not something is there. -/
def locate? (tree : FileTree) (path : String) : Option Location :=
  if path = "" then none else (Path.parts path).foldlM tree.follow tree.here

/-- Whether a path leads to a directory. -/
def isDirectory (tree : FileTree) (path : String) : Bool :=
  (tree.locate? path).any tree.isDirectoryAt

/-- Whether a path leads to something. -/
def hasPath (tree : FileTree) (path : String) : Bool :=
  (tree.locate? path).any fun location => (tree.entry? location).isSome

/-- The bytes of the file at a path. -/
def read? (tree : FileTree) (path : String) : Option Bytes :=
  match (tree.locate? path).bind tree.entry? with
  | some (.file content) => some content
  | _ => none

/-- The text of the file at a path, if its bytes are UTF-8. -/
def readText? (tree : FileTree) (path : String) : Option String :=
  (tree.read? path).bind Bytes.text?

/-- The names in a directory, in their order. -/
def names (tree : FileTree) (path : String) : List String :=
  match tree.locate? path with
  | some location =>
      (tree.places.filterMap (child location)).mergeSort fun a b => decide (a ≤ b)
  | none => []
where
  child (location other : Location) : Option String :=
    if other.dropLast = location then other.getLast? else none

/-- The paths of all files below the working directory, in their order. -/
def filePaths (tree : FileTree) : List String :=
  (tree.entries.entries.filterMap file?).mergeSort fun a b => decide (a ≤ b)
where
  file? : Location × Entry → Option String
    | (location, .file _) =>
        if tree.here.isPrefixOf location && !tree.isAbove location then
          some (String.intercalate "/" (location.drop tree.here.length))
        else none
    | (_, .directory) => none

/-! ## §3. Making directories. -/

/-- Follow the parts from a location and make every directory that is missing;
stop at the first part that cannot be one. -/
def makeDirectories (tree : FileTree) (location : Location) : List String → FileTree × Bool
  | [] => (tree, true)
  | part :: rest =>
      match tree.follow location part with
      | none => (tree, false)
      | some next =>
          match tree.entry? next with
          | some .directory => tree.makeDirectories next rest
          | some (.file _) => (tree, false)
          | none => (tree.put next .directory).makeDirectories next rest

/-- The tree with the directories of a path. -/
def addDirectories (tree : FileTree) (parts : List String) : FileTree :=
  (tree.makeDirectories tree.here parts).1

/-- The tree with a file, in directories that are made for it. -/
def addFile (tree : FileTree) (path : String) (content : Bytes) : FileTree :=
  let made := tree.addDirectories (Path.parentComponents path)
  match made.locate? path with
  | some location => made.put location (.file content)
  | none => made

end FileTree

/-! ## §4. Steps. -/

/-- One change of a tree. -/
inductive FileStep where
  /-- Make the directories along some parts. -/
  | makeDirectories (parts : List String)
  /-- Make an empty file, or empty the one that is there. -/
  | create (path : String)
  /-- Write bytes at the end of a file. -/
  | append (path : String) (bytes : Bytes)
  /-- Wait until a file is stored. -/
  | sync (path : String)
  /-- Move a file to another path, over the file that is there. -/
  | rename (source target : String)
  deriving Repr, DecidableEq

namespace FileStep

/-- Make or empty a file. -/
def runCreate (tree : FileTree) (path : String) : FileTree × Bool :=
  match tree.locate? path with
  | some location =>
      if tree.isDirectoryAt location then (tree, false)
      else (tree.put location (.file []), true)
  | none => (tree, false)

/-- Write at the end of a file. -/
def runAppend (tree : FileTree) (path : String) (bytes : Bytes) : FileTree × Bool :=
  match tree.locate? path with
  | some location =>
      match tree.entry? location with
      | some (.file content) => (tree.put location (.file (content ++ bytes)), true)
      | _ => (tree, false)
  | none => (tree, false)

/-- Move a file. -/
def runRename (tree : FileTree) (source target : String) : FileTree × Bool :=
  match tree.locate? source, tree.locate? target with
  | some old, some new =>
      match tree.entry? old with
      | some (.file content) =>
          if tree.isDirectoryAt new then (tree, false)
          else ((tree.remove old).put new (.file content), true)
      | _ => (tree, false)
  | _, _ => (tree, false)

/-- **Take a step**: the tree after it, and whether the tree admits it. -/
def run (tree : FileTree) : FileStep → FileTree × Bool
  | .makeDirectories parts => tree.makeDirectories tree.here parts
  | .create path => runCreate tree path
  | .append path bytes => runAppend tree path bytes
  | .sync _ => (tree, true)
  | .rename source target => runRename tree source target

/-! ## §5. Faults of the system. -/

/-- What the system does to the steps of a run, one after the other: it carries
the step out, or it lets it fail when `n` of its directories or bytes are there.
Steps beyond the end of the list are carried out. -/
abbrev Faults := List (Option Nat)

/-- **Try a step** on a system that may let it fail. -/
def attempt (tree : FileTree) (step : FileStep) (fault : Option Nat) : FileTree × Bool :=
  match fault, step with
  | none, step => step.run tree
  | some n, .makeDirectories parts =>
      ((tree.makeDirectories tree.here (parts.take n)).1, false)
  | some n, .append path bytes => ((runAppend tree path (bytes.take n)).1, false)
  | some _, _ => (tree, false)

/-- Try steps up to the first that fails. -/
def runAll (tree : FileTree) (steps : List FileStep) (faults : Faults := []) : FileTree × Bool :=
  match steps with
  | [] => (tree, true)
  | step :: rest =>
      match step.attempt tree (faults.headD none) with
      | (tree, true) => runAll tree rest faults.tail
      | (tree, false) => (tree, false)

end FileStep

end FluidClamp

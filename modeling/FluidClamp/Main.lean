/-
  FluidClamp.Main
  ───────────────
  **THE COMMAND LINE PROGRAM.**

  Reads what a command needs, carries the command out and does its steps on the
  disk.  For each pattern, the directories are read in which its search can come:
  those below its parts without special characters.  Links are read as what they
  lead to, and a pattern that leads upwards behind a star finds nothing there.
-/
import FluidClamp.Program

namespace FluidClamp.Main

open CommandLine

/-! ## §1. Reading. -/

/-- All bytes of a stream. -/
partial def readAll (stream : IO.FS.Stream) (bytes : ByteArray) : IO ByteArray := do
  let more ← stream.read 65536
  if more.isEmpty then return bytes else readAll stream (bytes ++ more)

/-- Add the file at a path to a tree, if it can be read. -/
def addFile (tree : FileTree) (path : String) : IO FileTree := do
  match ← (IO.FS.readBinFile path).toBaseIO with
  | .ok content => return tree.addFile path content.data.toList
  | .error _ => return tree

/-- Add what is at a path to a tree and, down to some depth, what is below it. -/
partial def addAt (tree : FileTree) (path : String) (depth : Option Nat) : IO FileTree := do
  match ← (IO.FS.realPath path).toBaseIO with
  | .error _ => return tree
  | .ok place =>
      if !(← place.isDir) then addFile tree path
      else
        let tree := tree.addDirectories (Path.components path)
        if depth = some 0 then return tree
        else
          (← place.readDir).foldlM (fun tree entry =>
            addAt tree (FileTree.below path entry.fileName) (depth.map (· - 1))) tree

/-- Add what the search for a pattern can come to. -/
def addSearched (tree : FileTree) (pattern : PathPattern) : IO FileTree :=
  let literals := pattern.parts.map Pattern.literal? |>.takeWhile Option.isSome |>.filterMap id
  let others := pattern.parts.drop literals.length
  let start := if pattern.absolute then "/" else "."
  addAt tree (literals.foldl (fun path name => FileTree.below path (String.ofList name)) start)
    (if others.any Pattern.isRecursive then none else some others.length)

/-- The files that a command reads. -/
def readFiles (command : Command) : IO FileTree := do
  let here := Path.pieces (← IO.currentDir).toString
  let tree ← (command.patterns.filterMap PathPattern.parse?).foldlM addSearched (.empty here)
  match command.configPath? with
  | some path => addFile tree path
  | none => return tree

/-- The standard input, if a command reads it. -/
def readInput (command : Command) : IO Bytes := do
  if command.readsInput then return (← readAll (← IO.getStdin) .empty).data.toList else return []

/-! ## §2. Writing. -/

/-- Do a step on the disk. -/
def perform : FileStep → IO Unit
  | .makeDirectories [] => return
  | .makeDirectories parts => IO.FS.createDirAll (String.intercalate "/" parts)
  | .create path => IO.FS.writeBinFile path .empty
  | .append path bytes => do
      let handle ← IO.FS.Handle.mk path .append
      handle.write ⟨bytes.toArray⟩
  | .sync path => do
      let handle ← IO.FS.Handle.mk path .append
      handle.flush
  | .rename source target => IO.FS.rename source target

/-- Do the steps of a run and print what it prints.  A step that fails ends them;
a run that was to succeed fails with it. -/
def conclude (outcome : Program.Outcome) : IO UInt32 := do
  for warning in outcome.warnings do IO.eprintln warning
  match ← (outcome.steps.forM perform).toBaseIO, outcome.code with
  | .error error, 0 =>
      IO.eprintln ("Error: " ++ toString error)
      return 1
  | _, code =>
      IO.print outcome.output
      for notice in outcome.notices do IO.eprintln notice
      return UInt32.ofNat code

end FluidClamp.Main

open FluidClamp CommandLine in
/-- **The program**, run with the words of its command line. -/
def main (words : List String) : IO UInt32 := do
  let rootSize ← IO.getEnv rootSizeVariable
  match Command.read (Program.fallback rootSize) words with
  | .error refusal => Main.conclude (Program.refusing .empty refusal)
  | .ok command =>
      Main.conclude (Program.carryOut (← Main.readFiles command) (← Main.readInput command) command)

/-
  FluidClamp.Config.File
  ──────────────────────
  **CONFIGURATION FILES.**

  The name of a configuration file says by its extension whether it is JSON or
  YAML.  Its text is read as such and the configuration checked; without a file
  everything has its default.
-/
import FluidClamp.Config.FromJson
import FluidClamp.Config.FromYaml
import FluidClamp.Failure
import FluidClamp.Files.Tree

namespace FluidClamp

/-- The formats of configuration files. -/
inductive ConfigFormat where
  | json
  | yaml
  deriving Repr, DecidableEq

namespace ConfigFormat

/-- The format that the name of a file asks for. -/
def ofPath? (path : String) : Option ConfigFormat :=
  match Path.extension? path with
  | some "json" => some .json
  | some "yaml" | some "yml" => some .yaml
  | _ => none

/-- Read a configuration. -/
def parse (format : ConfigFormat) (text : String) : Except Failure Config :=
  match format with
  | .json => (Json.parseConfig? text).elim (.error .malformedJson) .ok
  | .yaml => (Yaml.parseConfig? text).elim (.error .malformedYaml) .ok

end ConfigFormat

namespace FileTree

/-- The configuration in a file. -/
def readConfig (tree : FileTree) (path : String) : Except Failure Config :=
  match ConfigFormat.ofPath? path with
  | none => .error (.unsupportedConfig path)
  | some format =>
      match tree.readText? path with
      | none => .error (.unreadableConfig path)
      | some text => do
          let config ← format.parse text
          config.check
          return config

/-- **The configuration of a run**, with the path of a file or without. -/
def config (tree : FileTree) (path : Option String) : Except Failure Config :=
  match path with
  | some path => tree.readConfig path
  | none => .ok {}

end FileTree

end FluidClamp

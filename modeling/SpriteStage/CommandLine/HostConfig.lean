import SpriteStage.Json.Reader
import SpriteStage.Stage.Config
set_option autoImplicit false

/-! # Settings of the command line

The settings file of the command line holds how much is logged and the settings of the stage. -/

namespace SpriteStage

/-- How much is logged. -/
inductive LogLevel where
  | error
  | warn
  | info
  | debug
  | trace
deriving DecidableEq

namespace LogLevel

/-- The level that is meant where none is given. -/
def default : LogLevel := warn

/-- The name of a level. -/
def name : LogLevel → String
  | error => "error"
  | warn => "warn"
  | info => "info"
  | debug => "debug"
  | trace => "trace"

/-- The level with this name. -/
def ofName? : String → Option LogLevel
  | "error" => some error
  | "warn" => some warn
  | "info" => some info
  | "debug" => some debug
  | "trace" => some trace
  | _ => none

/-- The JSON form of a level. -/
def toJson (l : LogLevel) : Json := .string l.name

/-- Read a level. -/
def ofJson? : Json → Option LogLevel := Json.choice? .strict ofName?

end LogLevel

/-- The settings of the command line. -/
structure HostConfig where
  logLevel : LogLevel := .default
  stage : StageConfig := {}

namespace HostConfig

/-- The JSON form of settings. -/
def toJson (c : HostConfig) : Json :=
  .object [("log_level", c.logLevel.toJson), ("stage", c.stage.toJson)]

/-- Read settings; for what is left out the default of its type is taken. -/
def ofJson? (json : Json) : Option HostConfig := do
  let members ← json.members? (Json.defaultFields ["log_level", "stage"])
  let logLevel ← Json.defaulted? "log_level" LogLevel.ofJson? .default members
  let stage ← Json.defaulted? "stage" StageConfig.ofJson? {} members
  some ⟨logLevel, stage⟩

/-- Read the text of settings. -/
def parse? (text : String) : Option HostConfig := (Json.parse? text).bind ofJson?

end HostConfig

end SpriteStage

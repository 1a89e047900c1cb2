import SpriteStage.Number.DecimalText
import SpriteStage.Stage.Demo
import SpriteStage.Stage.History
set_option autoImplicit false

/-! # Settings of the stage

All times and sizes that the stage works with. Each field has a default, which is taken where a
settings file leaves it out; the settings of a stage for which there is no file are those of the
type, `{}`. `StageConfig.fault?` finds what makes settings unusable. -/

namespace SpriteStage

/-- What happens to the clearing of a cell that has been written since it was scheduled. -/
inductive StalePolicy where
  /-- The clearing is dropped. -/
  | drop
  /-- The clearing takes place all the same. -/
  | fire
deriving DecidableEq

namespace StalePolicy

/-- The policy that is meant where none is given. -/
def default : StalePolicy := drop

/-- The name of a policy. -/
def name : StalePolicy → String
  | drop => "drop"
  | fire => "fire"

/-- The policy with this name. -/
def ofName? : String → Option StalePolicy
  | "drop" => some drop
  | "fire" => some fire
  | _ => none

/-- The JSON form of a policy. -/
def toJson (p : StalePolicy) : Json := .string p.name

/-- Read a policy. -/
def ofJson? : Json → Option StalePolicy := Json.choice? .strict ofName?

end StalePolicy

/-- Half the extent of the sprite, if none is given. -/
def SpriteGeometry.defaultHalfExtent : Point := ⟨47.5, 50⟩

/-- Where the sprite is on the screen: its middle is the sum of the stage's origin, its position
    and half its extent. -/
structure SpriteGeometry where
  origin : Point := .zero
  halfExtent : Point := SpriteGeometry.defaultHalfExtent
deriving BEq

namespace SpriteGeometry

/-- The JSON form of a geometry. -/
def toJson (g : SpriteGeometry) : Json :=
  .object [("origin", g.origin.toJson), ("half_extent", g.halfExtent.toJson)]

/-- Read a geometry; for a point that is left out the default of its field is taken. -/
def ofJson? (json : Json) : Option SpriteGeometry := do
  let members ← json.members? (Json.defaultFields ["origin", "half_extent"])
  let origin ← Json.defaulted? "origin" Point.ofJson? .default members
  let halfExtent ← Json.defaulted? "half_extent" Point.ofJson? defaultHalfExtent members
  some ⟨origin, halfExtent⟩

end SpriteGeometry

namespace StageConfig

/-- The time between two steps of a run, if none is given. -/
def defaultStepIntervalMs : Nat := 10

/-- The time within which only one movement of the pointer takes effect, if none is given. -/
def defaultPointerThrottleMs : Nat := 200

/-- The bound of random points, if none is given. -/
def defaultRandomExtent : Float := 400

/-- The greatest depth of the undo history, if none is given. -/
def defaultHistoryDepth : Nat := 1000

end StageConfig

/-- The settings of a stage. -/
structure StageConfig where
  /-- The time between two steps of a run. -/
  stepIntervalMs : Nat := StageConfig.defaultStepIntervalMs
  /-- The time within which only one movement of the pointer takes effect. -/
  pointerThrottleMs : Nat := StageConfig.defaultPointerThrottleMs
  /-- Random points lie below this in both coordinates. -/
  randomExtent : Float := StageConfig.defaultRandomExtent
  /-- The seed of the random numbers; without one they differ from stage to stage. -/
  seed : Option Nat := none
  geometry : SpriteGeometry := {}
  /-- The greatest depth of the undo history. -/
  historyDepth : Nat := StageConfig.defaultHistoryDepth
  stalePolicy : StalePolicy := .default
  demo : DemoConfig := {}
deriving BEq

namespace StageConfig

/-! ## JSON -/

/-- The JSON form of the section on the undo history. -/
def historyToJson (depth : Nat) : Json := .object [("max_depth", .ofNat depth)]

/-- Read the section on the undo history. -/
def historyOfJson? (json : Json) : Option Nat := do
  let members ← json.members? (Json.defaultFields ["max_depth"])
  Json.defaulted? "max_depth" Json.asNat? defaultHistoryDepth members

/-- The JSON form of the section on timers. -/
def timersToJson (policy : StalePolicy) : Json := .object [("stale_policy", policy.toJson)]

/-- Read the section on timers. -/
def timersOfJson? (json : Json) : Option StalePolicy := do
  let members ← json.members? (Json.defaultFields ["stale_policy"])
  Json.defaulted? "stale_policy" StalePolicy.ofJson? .default members

/-- The JSON form of settings. -/
def toJson (c : StageConfig) : Json :=
  .object [("step_interval_ms", .ofNat c.stepIntervalMs),
    ("pointer_throttle_ms", .ofNat c.pointerThrottleMs), ("random_extent", .ofFloat c.randomExtent),
    ("rng_seed", .ofOption .ofNat c.seed), ("geometry", c.geometry.toJson),
    ("history", historyToJson c.historyDepth), ("timers", timersToJson c.stalePolicy),
    ("choreography", c.demo.toJson)]

/-- The fields of settings. -/
def fields : List String :=
  ["step_interval_ms", "pointer_throttle_ms", "random_extent", "rng_seed", "geometry", "history",
    "timers", "choreography"]

/-- Read settings; for a field that is left out its default is taken, and for a section that is left
    out the settings of its type. -/
def ofJson? (json : Json) : Option StageConfig := do
  let members ← json.members? (Json.defaultFields fields)
  let stepIntervalMs ←
    Json.defaulted? "step_interval_ms" Json.asNat? defaultStepIntervalMs members
  let pointerThrottleMs ←
    Json.defaulted? "pointer_throttle_ms" Json.asNat? defaultPointerThrottleMs members
  let randomExtent ← Json.defaulted? "random_extent" Json.asFloat? defaultRandomExtent members
  let seed ← Json.optional? "rng_seed" Json.asNat? members
  let geometry ← Json.defaulted? "geometry" SpriteGeometry.ofJson? {} members
  let historyDepth ← Json.defaulted? "history" historyOfJson? defaultHistoryDepth members
  let stalePolicy ← Json.defaulted? "timers" timersOfJson? .default members
  let demo ← Json.defaulted? "choreography" DemoConfig.ofJson? {} members
  some ⟨stepIntervalMs, pointerThrottleMs, randomExtent, seed, geometry, historyDepth, stalePolicy,
    demo⟩

/-! ## Choices -/

/-- Choose the seed. -/
def withSeed (c : StageConfig) (seed : Nat) : StageConfig := { c with seed := some seed }

/-- Choose what happens to stale timers. -/
def withStalePolicy (c : StageConfig) (policy : StalePolicy) : StageConfig :=
  { c with stalePolicy := policy }

end StageConfig

/-! ## Faults -/

/-- What makes settings unusable. -/
inductive ConfigFault where
  | noStepInterval
  | noTickInterval
  | randomExtent (value : Float)
  | viewportWidth (value : Float)
  | stride (value : Float)
  | threshold (value : Float)
  | rest (value : Float)
  | noHistory

namespace ConfigFault

/-- The wording of a fault. -/
def message : ConfigFault → String
  | .noStepInterval => "step_interval_ms 必须大于 0"
  | .noTickInterval => "choreography.tick_ms 必须大于 0"
  | .randomExtent x => "random_extent 必须为正数: " ++ decimalText .plain x
  | .viewportWidth x => "choreography.viewport_width 必须为非负数: " ++ decimalText .plain x
  | .stride x => "choreography.step 必须为正数: " ++ decimalText .plain x
  | .threshold x => "choreography.threshold 必须为非负数: " ++ decimalText .plain x
  | .rest x => "choreography.cat2_rest 必须为有限数: " ++ decimalText .plain x
  | .noHistory => "history.max_depth 必须大于 0"

end ConfigFault

namespace StageConfig

/-- The first fault of settings. Intervals and the history have to be positive, sizes finite and
    not negative, and steps and the random extent more than zero. -/
def fault? (c : StageConfig) : Option ConfigFault :=
  if c.stepIntervalMs = 0 then some .noStepInterval
  else if c.demo.tickMs = 0 then some .noTickInterval
  else if !c.randomExtent.isFinite || c.randomExtent <= 0 then some (.randomExtent c.randomExtent)
  else if !c.demo.viewportWidth.isFinite || c.demo.viewportWidth < 0 then
    some (.viewportWidth c.demo.viewportWidth)
  else if !c.demo.stride.isFinite || c.demo.stride <= 0 then some (.stride c.demo.stride)
  else if !c.demo.threshold.isFinite || c.demo.threshold < 0 then
    some (.threshold c.demo.threshold)
  else if !c.demo.rest.isFinite then some (.rest c.demo.rest)
  else if c.historyDepth = 0 then some .noHistory
  else none

end StageConfig

end SpriteStage

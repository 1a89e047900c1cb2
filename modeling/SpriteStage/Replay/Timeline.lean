import SpriteStage.Clock
import SpriteStage.Json.Reader
import SpriteStage.Stage.Input
set_option autoImplicit false

/-! # Timelines

A timeline is a list of inputs with the instants at which they come. It is played in the order of
the instants; inputs of the same instant keep their order. -/

namespace SpriteStage

/-- An input and its instant. -/
structure TimelineEntry where
  instant : Instant
  input : StageInput

namespace TimelineEntry

/-- A click on the flag at the very start. -/
def flagAtStart : TimelineEntry := ⟨0, .flagClicked⟩

/-- The JSON form of an entry: the instant and the fields of the input in one object. -/
def toJson (e : TimelineEntry) : Json := .object (("at_ms", .ofNat e.instant) :: e.input.toMembers)

/-- Read an entry, which is always an object. The members other than the instant are those of the
    input; here an input may also be called by its place among all inputs. -/
def ofJson? : Json → Option TimelineEntry
  | .object members =>
    match members.filter (·.1 == "at_ms") with
    | [(_, value)] => do
      let instant ← value.asNat?
      let input ← StageInput.ofNumbered? (.object (members.filter (·.1 != "at_ms")))
      some ⟨instant, input⟩
    | _ => none
  | _ => none

end TimelineEntry

/-- Order entries by their instants; equal instants keep their order. -/
def sortTimeline (entries : List TimelineEntry) : List TimelineEntry :=
  entries.mergeSort fun a b => decide (a.instant ≤ b.instant)

/-- Read the text of a timeline and order it. -/
def parseTimeline? (text : String) : Option (List TimelineEntry) := do
  let json ← Json.parse? text
  let entries ← json.asList? TimelineEntry.ofJson?
  some (sortTimeline entries)

end SpriteStage

import SpriteStage.Replay.Timeline
import SpriteStage.Stage.Passage
set_option autoImplicit false

/-! # Playing a timeline

A player drives a stage through a timeline and writes down each event with the instant at which it
happened. To know the instants it lets time pass from one due entry of the agenda to the next. An
input that the stage refuses is written down, too, and the play goes on. -/

namespace SpriteStage

/-- An event and its instant. -/
structure TimedEvent where
  instant : Instant
  event : StageEvent

/-- An input that was refused, by the instant it has in the timeline. -/
structure RejectedInput where
  instant : Instant
  error : StageError

/-- A stage with what has been written down so far, in order. -/
structure Player where
  stage : Stage
  events : List TimedEvent
  rejected : List RejectedInput

/-- The result of a play. Events are left out unless they are asked for. -/
structure Replay where
  snapshot : StageSnapshot
  events : Option (List TimedEvent)
  rejected : List RejectedInput

namespace Player

/-- Nothing is written down yet. -/
def new (stage : Stage) : Player := ⟨stage, [], []⟩

/-- Write down events that happened just now. -/
def record (p : Player) (events : List StageEvent) : Player :=
  { p with events := p.events ++ events.map (⟨p.stage.now, ·⟩) }

/-- Let time pass until an instant on the stage, and write down what happened then. -/
def jump? (p : Player) (target : Instant) : Option Player := do
  let (stage, events) ← p.stage.advanceTo? target
  some ({ p with stage }.record events)

/-- Let time pass until an instant, at most over as many due instants as the fuel says. -/
def advanceWithin (target : Instant) : Nat → Player → Option Player
  | fuel, p =>
    match p.stage.agenda.nextDue? with
    | none => p.jump? target
    | some due =>
      if target < due then p.jump? target
      else
        match fuel with
        | 0 => none
        | fuel + 1 => do
          let p ← p.jump? due
          advanceWithin target fuel p

/-- Let time pass until an instant, so that each event is written down with its own. -/
def advanceTo? (p : Player) (target : Instant) : Option Player :=
  p.advanceWithin target (p.stage.workUntil target)

/-- Let time pass until the stage is settled, at most over as many due instants as the fuel says. -/
def settleWithin : Nat → Player → Option Player
  | fuel, p =>
    if p.stage.isSettled then some p
    else
      match p.stage.agenda.nextDue? with
      | none => some p
      | some due =>
        match fuel with
        | 0 => none
        | fuel + 1 => do
          let p ← p.advanceTo? due
          settleWithin fuel p

/-- Let time pass until the stage is settled. -/
def settle? (p : Player) : Option Player :=
  p.settleWithin (p.stage.workUntil lastInstant)

/-- Hand an input to the stage. -/
def handle (p : Player) (entry : TimelineEntry) : Player :=
  match p.stage.handle entry.input with
  | (stage, .ok events) => { p with stage }.record events
  | (stage, .error error) => { p with stage, rejected := p.rejected ++ [⟨entry.instant, error⟩] }

/-- Let time pass until an entry comes, and hand over its input. -/
def playEntry? (p : Player) (entry : TimelineEntry) : Option Player := do
  let p ← p.advanceTo? (max entry.instant p.stage.now)
  some (p.handle entry)

/-- Play entries in order. -/
def playEntries? (p : Player) : List TimelineEntry → Option Player
  | [] => some p
  | entry :: rest => do
    let p ← p.playEntry? entry
    p.playEntries? rest

/-- The entries that come before the end, if there is one. -/
def entriesUntil (cutoff : Option Instant) (entries : List TimelineEntry) : List TimelineEntry :=
  entries.takeWhile fun entry => cutoff.all fun last => decide (entry.instant ≤ last)

/-- Play a timeline up to the end, or, if there is none, until the stage is settled. -/
def play? (p : Player) (entries : List TimelineEntry) (cutoff : Option Instant) :
    Option Player := do
  let p ← p.playEntries? (entriesUntil cutoff entries)
  match cutoff with
  | some last => p.advanceTo? (max last p.stage.now)
  | none => p.settle?

/-- What the play has brought about. -/
def finish (p : Player) (withEvents : Bool) : Replay :=
  ⟨p.stage.snapshot, if withEvents then some p.events else none, p.rejected⟩

end Player

/-! ## JSON -/

/-- The JSON form of an event with its instant, which comes first. -/
def TimedEvent.toJson (e : TimedEvent) : Json :=
  .object (("at_ms", .ofNat e.instant) :: e.event.toMembers)

/-- The JSON form of an input that was refused. -/
def RejectedInput.toJson (r : RejectedInput) : Json :=
  .object [("at_ms", .ofNat r.instant), ("error", .string r.error.message)]

/-- The JSON form of a play. The list of refused inputs is left out if it is empty. -/
def Replay.toJson (r : Replay) : Json :=
  .object <| [("snapshot", r.snapshot.toJson)]
    ++ (match r.events with
      | some events => [("events", .ofList TimedEvent.toJson events)]
      | none => [])
    ++ if r.rejected.isEmpty then [] else [("rejected", .ofList RejectedInput.toJson r.rejected)]

end SpriteStage

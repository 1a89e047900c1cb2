import SpriteStage.Stage.Basic
set_option autoImplicit false

/-! # The passage of time

Letting time pass means taking one entry after the other from the agenda, setting the clock to the
instant at which it is due, and firing it, until nothing more is due.

Firing can schedule further entries, so it is not the length of the agenda that bounds the work.
Each step of a run makes two entries at most, and the demo makes one later entry for each tick
before the end of the clock. `Stage.workUntil` counts the entries that can fire at most, and the
loops below stop when that many have fired: then only the demo at the very last instant is left,
which would tick there forever. That is the case in which they have no result. -/

namespace SpriteStage

namespace Stage

/-! ## Firing -/

/-- Clear a cell, if the version is that of its last write or stale timers fire, too. -/
def fireClear (s : Stage) (cell : Cell) (version : Nat) : Stage × List StageEvent :=
  if version = s.sprite.version cell ∨ s.config.stalePolicy = .fire then
    ({ s with sprite := s.sprite.clear cell }, [.cleared cell])
  else (s, [.staleTimerDropped (Timer.clear cell version).label])

/-- Move the cats on and schedule the next tick, unless they have stopped in the meantime. -/
def fireDemoTick (s : Stage) (session : Nat) : Stage × List StageEvent :=
  if s.demo.isAnimating ∧ session = s.demo.session then
    let (demo, flip) := s.demo.step
    ({ s with demo }.scheduleAfter demo.config.tickMs (.demoTick session),
      flip.toList.map .demoFlipped)
  else (s, [])

/-- Fire a timer. -/
def fire (s : Stage) : Timer → Stage × List StageEvent
  | .step run index => s.runStep run index
  | .clear cell version => s.fireClear cell version
  | .demoTick session => s.fireDemoTick session

/-- Fire the first entry of the agenda if it is due by an instant, with the clock at the instant at
    which it is due. -/
def fireNext? (s : Stage) (target : Instant) : Option (Stage × List StageEvent) :=
  match s.agenda.popDue? target with
  | none => none
  | some (entry, agenda) => some ({ s with agenda, now := max s.now entry.due }.fire entry.timer)

/-! ## How much there is to do -/

/-- How many entries can fire at most on account of one that is due by an instant, itself
    included. -/
def workOf (s : Stage) (target : Instant) (entry : Appointment) : Nat :=
  match entry.timer with
  | .step run index =>
    let actions := (s.runs.find? run).elim 0 (·.actions.length)
    2 * (actions - index) + 1
  | .clear _ _ => 1
  | .demoTick _ => target + 1 - entry.due

/-- How many entries can fire at most until an instant. -/
def workUntil (s : Stage) (target : Instant) : Nat :=
  s.agenda.entries.foldr (fun entry work => s.workOf target entry + work) 0

/-! ## Letting time pass -/

/-- Fire what is due by an instant, at most as many entries as the fuel says. -/
def drain (target : Instant) : Nat → Stage → Option (Stage × List StageEvent)
  | fuel, s =>
    match s.fireNext? target with
    | none => some (s, [])
    | some (s, events) =>
      match fuel with
      | 0 => none
      | fuel + 1 => do
        let (s, later) ← drain target fuel s
        some (s, events ++ later)

/-- Let time pass until an instant. An instant that is over lets no time pass, and the last instant
    is the latest there is. -/
def advanceTo? (s : Stage) (target : Instant) : Option (Stage × List StageEvent) := do
  let target := min target lastInstant
  let (s, events) ← s.drain target (s.workUntil target)
  let now := max s.now target
  some ({ s with now, pointer := s.pointer.flush now }, events)

/-- The whole milliseconds in a number of nanoseconds. -/
def elapsedMs (nanoseconds : Nat) : Nat := nanoseconds / 1000000

/-- Let some nanoseconds pass. Only whole milliseconds count. -/
def tick? (s : Stage) (nanoseconds : Nat) : Option (Stage × List StageEvent) :=
  s.advanceTo? (after s.now (elapsedMs nanoseconds))

/-- Let time pass from one due entry to the next, at most as often as the fuel says, until the stage
    is settled. -/
def settleWithin : Nat → Stage → Option (Stage × List StageEvent)
  | fuel, s =>
    if s.isSettled then some (s, [])
    else
      match s.agenda.nextDue? with
      | none => some (s, [])
      | some due =>
        match fuel with
        | 0 => none
        | fuel + 1 => do
          let (s, events) ← s.advanceTo? due
          let (s, later) ← settleWithin fuel s
          some (s, events ++ later)

/-- Let time pass until the stage is settled. -/
def settle? (s : Stage) : Option (Stage × List StageEvent) :=
  s.settleWithin (s.workUntil lastInstant)

end Stage

/-! ## Operations -/

/-- Whatever can be done to a stage. -/
inductive Operation where
  | load (program : Program)
  | input (input : StageInput)
  | tick (nanoseconds : Nat)
  | advanceTo (target : Instant)
  | settle

namespace Stage

/-- Do something to a stage: the stage afterwards, and the events or why it was refused. Operations
    that let time pass have no result if they never end. -/
def operate? (s : Stage) : Operation → Option (Stage × Except StageError (List StageEvent))
  | .load program => some (accepted (s.load program))
  | .input input => some (s.handle input)
  | .tick nanoseconds => (s.tick? nanoseconds).map accepted
  | .advanceTo target => (s.advanceTo? target).map accepted
  | .settle => s.settle?.map accepted

end Stage

end SpriteStage

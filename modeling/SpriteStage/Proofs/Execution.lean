import SpriteStage.Proofs.Moves
import SpriteStage.Replay.Player
set_option autoImplicit false

/-! # Executions

An execution is a stage that was just made (`Stage.IsNew`) and a finite row of operations on it. Each
event is written down with the reading of the clock at which it happened: `Stage.operateTimed?` does
what `Stage.operate?` does and keeps these readings (`Stage.operate?_eq`). Beside the events stands
what was announced, the actions of each run as they were planned when it was started.

Every operation is a row of moves, so a property that holds of a new stage and is kept by every move
holds throughout (`Execution.induction`, `Reachable.induction`). -/

namespace SpriteStage

namespace Stage

/-! ## New stages -/

/-- The stage was just made, with settings that have no fault. Without a seed the random numbers may
    be any. -/
structure IsNew (config : StageConfig) (s : Stage) : Prop where
  faultless : config.fault? = none
  made : ∃ program generator,
    (∀ seed, config.seed = some seed → generator = Generator.seeded seed.toUInt64) ∧
      s = { build program config with generator }

theorem isNew_build {config : StageConfig} (h : config.fault? = none) (program : Program) :
    IsNew config (build program config) := by
  refine ⟨h, program, .seeded (config.seed.getD 0).toUInt64, ?_, rfl⟩
  intro seed hseed
  rw [hseed, Option.getD_some]

theorem isNew_of_withConfig {program : Program} {config : StageConfig} {s : Stage}
    (h : withConfig program config = .ok s) : IsNew config s := by
  unfold withConfig at h
  cases hfault : config.fault? with
  | some fault => simp [hfault] at h
  | none =>
      simp only [hfault, Except.ok.injEq] at h
      rw [← h]
      exact isNew_build hfault program

theorem isNew_new (program : Program) : IsNew {} (new program) := isNew_build (by decide) program

/-! ## Events with their instants -/

/-- Write down events that happened just now. -/
def stamp (s : Stage) (events : List StageEvent) : List TimedEvent := events.map (⟨s.now, ·⟩)

theorem mem_stamp {s : Stage} {events : List StageEvent} {e : TimedEvent} :
    e ∈ s.stamp events ↔ ∃ event ∈ events, e = ⟨s.now, event⟩ := by
  simp [stamp, eq_comm]

theorem stamp_append (s : Stage) (events later : List StageEvent) :
    s.stamp (events ++ later) = s.stamp events ++ s.stamp later := List.map_append

theorem map_event_stamp (s : Stage) (events : List StageEvent) :
    (s.stamp events).map (·.event) = events := by
  simp [stamp, Function.comp_def]

theorem filter_stamp (s : Stage) (events : List StageEvent) (p : StageEvent → Bool) :
    (s.stamp events).filter (fun e => p e.event) = s.stamp (events.filter p) := List.filter_map

/-- The instant is all that is taken from the stage. -/
theorem stamp_congr {s s' : Stage} (hnow : s'.now = s.now) (events : List StageEvent) :
    s'.stamp events = s.stamp events := by
  unfold stamp
  rw [hnow]

/-- A stage and the events that led to it, all of which happened just now. -/
def stamped (result : Stage × List StageEvent) : Stage × List TimedEvent :=
  (result.1, result.1.stamp result.2)

/-- A stage and the events that led to it, without their instants. -/
def forget (result : Stage × List TimedEvent) : Stage × List StageEvent :=
  (result.1, result.2.map (·.event))

@[simp] theorem forget_stamped (result : Stage × List StageEvent) :
    forget (stamped result) = result := by
  simp [forget, stamped, stamp, Function.comp_def]

/-- `drain` with the instant of each event. -/
def drainTimed (target : Instant) : Nat → Stage → Option (Stage × List TimedEvent)
  | fuel, s =>
    match s.fireNext? target with
    | none => some (s, [])
    | some (s, events) =>
      match fuel with
      | 0 => none
      | fuel + 1 => do
        let (s', later) ← drainTimed target fuel s
        some (s', s.stamp events ++ later)

/-- `advanceTo?` with the instant of each event. -/
def advanceTimed? (s : Stage) (target : Instant) : Option (Stage × List TimedEvent) :=
  (s.drainTimed (min target lastInstant) (s.workUntil (min target lastInstant))).map
    fun result => (result.1.waitUntil (min target lastInstant), result.2)

/-- `settleWithin` with the instant of each event. -/
def settleTimedWithin : Nat → Stage → Option (Stage × List TimedEvent)
  | fuel, s =>
    if s.isSettled then some (s, [])
    else
      match s.agenda.nextDue? with
      | none => some (s, [])
      | some due =>
        match fuel with
        | 0 => none
        | fuel + 1 => do
          let (s, events) ← s.advanceTimed? due
          let (s, later) ← settleTimedWithin fuel s
          some (s, events ++ later)

/-- A stage and the answer that led to it, with all of its events just now. -/
def stampedAnswer (result : Stage × Except StageError (List StageEvent)) :
    Stage × Except StageError (List TimedEvent) :=
  (result.1, result.2.map result.1.stamp)

/-- A stage and the answer that led to it, without the instants of the events. -/
def forgetAnswer (result : Stage × Except StageError (List TimedEvent)) :
    Stage × Except StageError (List StageEvent) :=
  (result.1, result.2.map (·.map (·.event)))

@[simp] theorem forgetAnswer_accepted (result : Stage × List TimedEvent) :
    forgetAnswer (accepted result) = accepted (forget result) := rfl

@[simp] theorem forgetAnswer_stampedAnswer
    (result : Stage × Except StageError (List StageEvent)) :
    forgetAnswer (stampedAnswer result) = result := by
  obtain ⟨s, answer⟩ := result
  cases answer with
  | error e => rfl
  | ok events => exact congrArg (fun told => (s, Except.ok told)) (s.map_event_stamp events)

/-- The events of an answer. What is refused has none. -/
def eventsOf {α : Type} : Except StageError (List α) → List α
  | .ok events => events
  | .error _ => []

theorem mem_eventsOf {α : Type} {answer : Except StageError (List α)} {event : α} :
    event ∈ eventsOf answer ↔ ∃ events, answer = .ok events ∧ event ∈ events := by
  cases answer <;> simp [eventsOf]

theorem eventsOf_map {α β : Type} (f : α → β) (answer : Except StageError (List α)) :
    eventsOf (answer.map (·.map f)) = (eventsOf answer).map f := by
  cases answer <;> rfl

/-- `operate?` with the instant of each event. -/
def operateTimed? (s : Stage) : Operation → Option (Stage × Except StageError (List TimedEvent))
  | .load program => some (accepted (stamped (s.load program)))
  | .input input => some (stampedAnswer (s.handle input))
  | .tick nanoseconds => (s.advanceTimed? (after s.now (elapsedMs nanoseconds))).map accepted
  | .advanceTo target => (s.advanceTimed? target).map accepted
  | .settle => (s.settleTimedWithin (s.workUntil lastInstant)).map accepted

/-- An input is answered just now. -/
theorem handle_of_operateTimed? {s s' : Stage} {input : StageInput}
    {timed : Except StageError (List TimedEvent)}
    (h : s.operateTimed? (.input input) = some (s', timed)) :
    ∃ answer, s.handle input = (s', answer) ∧ timed = answer.map s'.stamp := by
  cases h
  exact ⟨_, rfl, rfl⟩

theorem drain_eq (target : Instant) (fuel : Nat) (s : Stage) :
    s.drain target fuel = (s.drainTimed target fuel).map forget := by
  induction fuel generalizing s with
  | zero =>
      unfold drain drainTimed
      cases s.fireNext? target <;> rfl
  | succ fuel ih =>
      unfold drain drainTimed
      cases s.fireNext? target with
      | none => rfl
      | some result =>
          obtain ⟨mid, events⟩ := result
          simp only [ih mid]
          cases mid.drainTimed target fuel with
          | none => rfl
          | some result => simp [forget, stamp, Function.comp_def]

theorem advanceTo?_eq_forget (s : Stage) (target : Instant) :
    s.advanceTo? target = (s.advanceTimed? target).map forget := by
  rw [advanceTo?_eq, drain_eq, advanceTimed?, Option.map_map, Option.map_map]
  rfl

theorem advanceTo?_of_timed {s s' : Stage} {target : Instant} {log : List TimedEvent}
    (h : s.advanceTimed? target = some (s', log)) :
    s.advanceTo? target = some (s', log.map (·.event)) := by
  rw [advanceTo?_eq_forget, h]
  rfl

theorem settleWithin_eq (fuel : Nat) (s : Stage) :
    s.settleWithin fuel = (s.settleTimedWithin fuel).map forget := by
  induction fuel generalizing s with
  | zero =>
      unfold settleWithin settleTimedWithin
      split
      · rfl
      · cases s.agenda.nextDue? <;> rfl
  | succ fuel ih =>
      unfold settleWithin settleTimedWithin
      split
      · rfl
      · cases s.agenda.nextDue? with
        | none => rfl
        | some due =>
            simp only [advanceTo?_eq_forget]
            cases s.advanceTimed? due with
            | none => rfl
            | some result =>
                obtain ⟨mid, events⟩ := result
                simp only [Option.map_some, forget, Option.bind_eq_bind, Option.bind_some, ih mid]
                cases mid.settleTimedWithin fuel with
                | none => rfl
                | some result => simp [forget]

/-- Keeping the instants changes nothing else. -/
theorem operate?_eq (s : Stage) (operation : Operation) :
    s.operate? operation = (s.operateTimed? operation).map forgetAnswer := by
  cases operation with
  | load program => simp [operate?, operateTimed?]
  | input input => simp [operate?, operateTimed?]
  | tick nanoseconds =>
      simp only [operate?, operateTimed?, tick?, advanceTo?_eq_forget, Option.map_map]
      rfl
  | advanceTo target =>
      simp only [operate?, operateTimed?, advanceTo?_eq_forget, Option.map_map]
      rfl
  | settle =>
      simp only [operate?, operateTimed?, settle?, settleWithin_eq, Option.map_map]
      rfl

theorem operate?_of_operateTimed? {s s' : Stage} {operation : Operation}
    {answer : Except StageError (List TimedEvent)}
    (h : s.operateTimed? operation = some (s', answer)) :
    s.operate? operation = some (s', answer.map (·.map (·.event))) := by
  rw [operate?_eq, h]
  rfl

/-! ## Rows of moves -/

/-- A row of moves, with their events and the runs they start. -/
inductive Path : Stage → List TimedEvent → List Announcement → Stage → Prop
  | nil (s : Stage) : Path s [] [] s
  | cons {s mid s' : Stage} {events : List StageEvent} {log : List TimedEvent}
      {first rest : List Announcement} (move : Moves s events first mid)
      (path : Path mid log rest s') : Path s (mid.stamp events ++ log) (first ++ rest) s'

theorem Path.single {s s' : Stage} {events : List StageEvent} {started : List Announcement}
    (h : Moves s events started s') : Path s (s'.stamp events) started s' := by
  have hpath := Path.cons h (.nil s')
  rwa [List.append_nil, List.append_nil] at hpath

theorem Path.append {s mid s' : Stage} {log log' : List TimedEvent}
    {first rest : List Announcement} (h : Path s log first mid) (h' : Path mid log' rest s') :
    Path s (log ++ log') (first ++ rest) s' := by
  induction h with
  | nil => exact h'
  | cons move _ ih =>
      rw [List.append_assoc, List.append_assoc]
      exact .cons move (ih h')

theorem path_of_drainTimed {target : Instant} {fuel : Nat} {s s' : Stage} {log : List TimedEvent}
    (h : s.drainTimed target fuel = some (s', log)) :
    Path s log [] s' ∧ s'.fireNext? target = none := by
  induction fuel generalizing s log with
  | zero =>
      unfold drainTimed at h
      cases hfire : s.fireNext? target with
      | none =>
          simp only [hfire, Option.some.injEq, Prod.mk.injEq] at h
          obtain ⟨rfl, rfl⟩ := h
          exact ⟨.nil s, hfire⟩
      | some result => simp [hfire] at h
  | succ fuel ih =>
      unfold drainTimed at h
      cases hfire : s.fireNext? target with
      | none =>
          simp only [hfire, Option.some.injEq, Prod.mk.injEq] at h
          obtain ⟨rfl, rfl⟩ := h
          exact ⟨.nil s, hfire⟩
      | some result =>
          obtain ⟨mid, events⟩ := result
          simp only [hfire, Option.bind_eq_bind, Option.bind_eq_some_iff] at h
          obtain ⟨⟨last, later⟩, hlater, heq⟩ := h
          simp only [Option.some.injEq, Prod.mk.injEq] at heq
          obtain ⟨rfl, rfl⟩ := heq
          obtain ⟨hpath, hnone⟩ := ih hlater
          exact ⟨.cons (moves_of_fireNext? hfire) hpath, hnone⟩

theorem path_of_advanceTimed? {s s' : Stage} {target : Instant} {log : List TimedEvent}
    (h : s.advanceTimed? target = some (s', log)) : Path s log [] s' := by
  simp only [advanceTimed?, Option.map_eq_some_iff] at h
  obtain ⟨⟨mid, events⟩, hdrain, heq⟩ := h
  simp only [Prod.mk.injEq] at heq
  obtain ⟨rfl, rfl⟩ := heq
  -- nothing that is due is left, so the clock may be set
  obtain ⟨hpath, hnone⟩ := path_of_drainTimed hdrain
  have hwait := Path.single (Moves.wait hnone (Nat.min_le_right _ _))
  have happend := hpath.append hwait
  simpa [stamp] using happend

theorem path_of_settleTimedWithin {fuel : Nat} {s s' : Stage} {log : List TimedEvent}
    (h : s.settleTimedWithin fuel = some (s', log)) : Path s log [] s' := by
  induction fuel generalizing s log with
  | zero =>
      unfold settleTimedWithin at h
      split at h
      · cases h; exact .nil _
      · cases hdue : s.agenda.nextDue? with
        | none => simp only [hdue] at h; cases h; exact .nil _
        | some due => simp [hdue] at h
  | succ fuel ih =>
      unfold settleTimedWithin at h
      split at h
      · cases h; exact .nil _
      · cases hdue : s.agenda.nextDue? with
        | none => simp only [hdue] at h; cases h; exact .nil _
        | some due =>
            simp only [hdue, Option.bind_eq_bind, Option.bind_eq_some_iff] at h
            obtain ⟨⟨mid, events⟩, hadvance, ⟨last, later⟩, hlater, heq⟩ := h
            simp only [Option.some.injEq, Prod.mk.injEq] at heq
            obtain ⟨rfl, rfl⟩ := heq
            exact (path_of_advanceTimed? hadvance).append (ih hlater)

/-- The runs that an operation starts. -/
def announced (s : Stage) : Operation → List Announcement
  | .input input => s.announceInput input
  | _ => []

/-- Every operation is a row of moves; one that is refused is none at all. -/
theorem path_of_operateTimed? {s s' : Stage} {operation : Operation}
    {answer : Except StageError (List TimedEvent)}
    (h : s.operateTimed? operation = some (s', answer)) :
    Path s (eventsOf answer) (s.announced operation) s' := by
  cases operation with
  | load program =>
      cases h
      unfold load
      cases hclicked : program.clicked with
      | none => exact .single (.replace s program)
      | some action =>
          exact (Path.single (.replace s program)).append (.single (.once _ action))
  | input input =>
      obtain ⟨answer, hhandle, rfl⟩ := handle_of_operateTimed? h
      cases answer with
      | error e =>
          rw [eq_of_refused hhandle, announced, announceInput_of_refused hhandle]
          exact .nil s
      | ok events => exact .single (moves_of_handle hhandle)
  | tick nanoseconds =>
      obtain ⟨_, hresult, rfl⟩ := map_accepted_eq_some.1 h
      exact path_of_advanceTimed? hresult
  | advanceTo target =>
      obtain ⟨_, hresult, rfl⟩ := map_accepted_eq_some.1 h
      exact path_of_advanceTimed? hresult
  | settle =>
      obtain ⟨_, hresult, rfl⟩ := map_accepted_eq_some.1 h
      exact path_of_settleTimedWithin hresult

end Stage

/-! ## Executions -/

/-- An execution: the stage it has led to, all events so far, and the runs that were started. It goes
    on behind an operation that is refused, too, from the stage that is left then. -/
inductive Execution (config : StageConfig) :
    Stage → List TimedEvent → List Announcement → Prop
  | new {s : Stage} (h : s.IsNew config) : Execution config s [] []
  | operate {s s' : Stage} {log : List TimedEvent} {plans : List Announcement}
      {operation : Operation} {answer : Except StageError (List TimedEvent)}
      (h : Execution config s log plans)
      (hop : s.operateTimed? operation = some (s', answer)) :
      Execution config s' (log ++ Stage.eventsOf answer) (plans ++ s.announced operation)

/-- What holds of a new stage and is kept by every move holds throughout an execution. -/
theorem Execution.induction {config : StageConfig}
    {P : Stage → List TimedEvent → List Announcement → Prop}
    (new : ∀ s, s.IsNew config → P s [] [])
    (move : ∀ s log plans events started s', P s log plans → Stage.Moves s events started s' →
      P s' (log ++ s'.stamp events) (plans ++ started))
    {s : Stage} {log : List TimedEvent} {plans : List Announcement}
    (h : Execution config s log plans) : P s log plans := by
  -- along a row of moves the property is kept move by move
  have hpath : ∀ {s log plans s' log' plans'}, P s log plans → Stage.Path s log' plans' s' →
      P s' (log ++ log') (plans ++ plans') := by
    intro s log plans s' log' plans' hs hp
    induction hp generalizing log plans with
    | nil => simpa using hs
    | cons first _ ih =>
        rw [← List.append_assoc, ← List.append_assoc]
        exact ih (move _ _ _ _ _ _ hs first)
  induction h with
  | new h => exact new _ h
  | operate _ hop ih => exact hpath ih (Stage.path_of_operateTimed? hop)

/-- The stages that can be reached: from a new stage by operations, refused or not, that come to an
    end. -/
inductive Reachable : Stage → Prop
  | new {config : StageConfig} {s : Stage} (h : s.IsNew config) : Reachable s
  | operate {s s' : Stage} {operation : Operation} {answer : Except StageError (List StageEvent)}
      (h : Reachable s) (hop : s.operate? operation = some (s', answer)) : Reachable s'

theorem Reachable.handle {s s' : Stage} {answer : Except StageError (List StageEvent)}
    (h : Reachable s) (input : StageInput) (hhandle : s.handle input = (s', answer)) :
    Reachable s' := by
  have hop : s.operate? (.input input) = some (s', answer) := by rw [Stage.operate?, hhandle]
  exact .operate h hop

theorem Reachable.advanceTo {s s' : Stage} {target : Instant} {events : List StageEvent}
    (h : Reachable s) (hadvance : s.advanceTo? target = some (s', events)) : Reachable s' := by
  have hop : s.operate? (.advanceTo target) = some (s', .ok events) := by
    rw [Stage.operate?, hadvance]
    rfl
  exact .operate h hop

theorem Reachable.execution {s : Stage} (h : Reachable s) :
    ∃ config log plans, Execution config s log plans := by
  induction h with
  | new h => exact ⟨_, [], [], .new h⟩
  | operate _ hop ih =>
      obtain ⟨config, log, plans, hexec⟩ := ih
      rw [Stage.operate?_eq, Option.map_eq_some_iff] at hop
      obtain ⟨result, htimed, heq⟩ := hop
      cases heq
      exact ⟨config, _, _, .operate hexec htimed⟩

theorem Execution.reachable {config : StageConfig} {s : Stage} {log : List TimedEvent}
    {plans : List Announcement} (h : Execution config s log plans) : Reachable s := by
  induction h with
  | new hnew => exact .new hnew
  | operate _ hop ih => exact .operate ih (Stage.operate?_of_operateTimed? hop)

/-- What holds of every new stage and is kept by every move holds of every stage that can be
    reached. -/
theorem Reachable.induction {P : Stage → Prop} (new : ∀ config s, s.IsNew config → P s)
    (move : ∀ s events started s', P s → Stage.Moves s events started s' → P s') {s : Stage}
    (h : Reachable s) : P s := by
  obtain ⟨config, log, plans, hexec⟩ := h.execution
  exact hexec.induction (fun s hs => new config s hs)
    fun s _ _ events started s' hs hmove => move s events started s' hs hmove

end SpriteStage

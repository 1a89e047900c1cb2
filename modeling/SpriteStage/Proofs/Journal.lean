import SpriteStage.Proofs.Operations
import SpriteStage.Proofs.Timeliness
set_option autoImplicit false

/-! # Journals

A journal tells what happens on a stage incident by incident: a program is loaded, an input is
answered or refused, an entry of the agenda fires, the clock is set when nothing is due. Each
incident stands there with its cause and with the stages before and after it, so what is said of an
execution can be said of its incidents.

Every operation has a journal, with the same events at the same instants, in which the loads and the
inputs stand in the order in which they were made (`Stage.exists_journal_of_operateTimed?`). So has
a row of operations (`Stage.exists_journal`), and so has every execution
(`Execution.exists_journal`). -/

namespace SpriteStage

/-! ## Incidents -/

/-- Why something happens. -/
inductive Cause where
  | load (program : Program)
  | input (input : StageInput)
  /-- An entry of the agenda is due. -/
  | fire (entry : Appointment)
  /-- Nothing is due until an instant. -/
  | wait (target : Instant)

namespace Cause

/-- The operation, if the cause is one by itself. -/
def operation? : Cause → Option Operation
  | .load program => some (.load program)
  | .input given => some (.input given)
  | .fire _ | .wait _ => none

/-- The entry that fires. -/
def fired? : Cause → Option Appointment
  | .fire entry => some entry
  | .load _ | .input _ | .wait _ => none

end Cause

/-- Something that happens, with the stages around it and its events. -/
structure Incident where
  cause : Cause
  before : Stage
  after : Stage
  events : List StageEvent

namespace Incident

/-- The events with their instant. -/
def told (x : Incident) : List TimedEvent := x.after.stamp x.events

/-- What can happen on a stage. -/
inductive Occurs : Incident → Prop
  | load (s : Stage) (program : Program) :
      Occurs ⟨.load program, s, (s.load program).1, (s.load program).2⟩
  | input {s s' : Stage} {input : StageInput} {events : List StageEvent}
      (hhandle : s.handle input = (s', .ok events)) : Occurs ⟨.input input, s, s', events⟩
  | refused {s s' : Stage} {input : StageInput} {e : StageError}
      (hhandle : s.handle input = (s', .error e)) : Occurs ⟨.input input, s, s', []⟩
  | fire {s : Stage} {entry : Appointment} {rest : List Appointment}
      (hentries : s.agenda.entries = entry :: rest) :
      Occurs ⟨.fire entry, s, ((s.arrive entry rest).fire entry.timer).1,
        ((s.arrive entry rest).fire entry.timer).2⟩
  | wait {s : Stage} {target : Instant} (hnone : s.fireNext? target = none)
      (hlast : target ≤ lastInstant) : Occurs ⟨.wait target, s, s.waitUntil target, []⟩

/-- What every move keeps is kept by whatever happens. -/
theorem Occurs.keeps {P : Stage → Prop}
    (move : ∀ s events started s', P s → Stage.Moves s events started s' → P s') {x : Incident}
    (hx : x.Occurs) (h : P x.before) : P x.after := by
  cases hx with
  | load s program =>
      have hreplace : P { s with program } := move _ _ _ _ h (.replace s program)
      unfold Stage.load
      cases program.clicked with
      | none => exact hreplace
      | some action => exact move _ _ _ _ hreplace (.once _ action)
  | input hhandle => exact move _ _ _ _ h (Stage.moves_of_handle hhandle)
  | refused hhandle => exact Stage.eq_of_refused hhandle ▸ h
  | fire hentries => exact move _ _ _ _ h (.fire hentries)
  | wait hnone hlast => exact move _ _ _ _ h (.wait hnone hlast)

section

variable {x : Incident}

theorem Occurs.config_eq (hx : x.Occurs) : x.after.config = x.before.config :=
  hx.keeps (P := fun s => s.config = x.before.config)
    (fun _ _ _ _ hs hmove => hmove.config_eq.trans hs) rfl

theorem Occurs.now_le (hx : x.Occurs) : x.before.now ≤ x.after.now :=
  hx.keeps (P := fun s => x.before.now ≤ s.now)
    (fun _ _ _ _ hs hmove => Nat.le_trans hs hmove.now_le) (Nat.le_refl _)

theorem Occurs.timely (hx : x.Occurs) (h : Timely x.before) : Timely x.after :=
  hx.keeps (fun _ _ _ _ hs hmove => hmove.timely hs) h

end

end Incident

/-- The loads and inputs of a row of incidents. -/
def operationsOf (row : List Incident) : List Operation := row.filterMap (·.cause.operation?)

theorem operationsOf_append (row later : List Incident) :
    operationsOf (row ++ later) = operationsOf row ++ operationsOf later := List.filterMap_append

theorem mem_operationsOf {row : List Incident} {operation : Operation} :
    operation ∈ operationsOf row ↔ ∃ x ∈ row, x.cause.operation? = some operation := by
  simp [operationsOf]

namespace Stage

/-! ## Rows of incidents -/

/-- One incident after the other, from the first stage to the last. -/
inductive Journal : Stage → List Incident → Stage → Prop
  | nil (s : Stage) : Journal s [] s
  | cons {x : Incident} {row : List Incident} {s' : Stage} (hx : x.Occurs)
      (hrest : Journal x.after row s') : Journal x.before (x :: row) s'

namespace Journal

variable {s mid s' : Stage} {row later : List Incident} {x : Incident}

theorem single (hx : x.Occurs) : x.before.Journal [x] x.after := .cons hx (.nil x.after)

theorem append (h : s.Journal row mid) (h' : mid.Journal later s') :
    s.Journal (row ++ later) s' := by
  induction h with
  | nil => exact h'
  | cons hx _ ih => exact .cons hx (ih h')

/-- What is kept when a row grows by one incident holds at its end. -/
theorem induction {P : List Incident → Stage → Prop}
    (step : ∀ {row x}, P row x.before → x.Occurs → P (row ++ [x]) x.after) (h : s.Journal row s')
    {earlier : List Incident} (hs : P earlier s) : P (earlier ++ row) s' := by
  induction h generalizing earlier with
  | nil => rwa [List.append_nil]
  | @cons x row _ hx _ ih =>
      have hlast := ih (step hs hx)
      rwa [List.append_assoc, List.singleton_append] at hlast

/-- What every move keeps holds around each incident of a journal and at its end. -/
theorem keeps {P : Stage → Prop}
    (move : ∀ s events started s', P s → Stage.Moves s events started s' → P s')
    (h : s.Journal row s') (hs : P s) :
    P s' ∧ ∀ x ∈ row, x.Occurs ∧ P x.before ∧ P x.after := by
  induction h with
  | nil => exact ⟨hs, List.forall_mem_nil _⟩
  | cons hx _ ih =>
      have hafter := hx.keeps move hs
      obtain ⟨hlast, hrest⟩ := ih hafter
      exact ⟨hlast, List.forall_mem_cons.2 ⟨⟨hx, hs, hafter⟩, hrest⟩⟩

end Journal

/-! ## Journals of operations -/

section Operations

variable {s s' : Stage}

/-- A journal without loads and inputs tells a log. -/
def Passes (s : Stage) (s' : Stage) (log : List TimedEvent) : Prop :=
  ∃ row, s.Journal row s' ∧ row.flatMap Incident.told = log ∧ operationsOf row = []

theorem Passes.snoc {log : List TimedEvent} {x : Incident} (h : s.Passes x.before log)
    (hx : x.Occurs) (hcause : x.cause.operation? = none) :
    s.Passes x.after (log ++ x.told) := by
  obtain ⟨row, hrow, rfl, hops⟩ := h
  refine ⟨row ++ [x], hrow.append (.single hx), ?_, ?_⟩
  · rw [List.flatMap_append, List.flatMap_singleton]
  · rw [operationsOf_append, hops]
    simp [operationsOf, hcause]

/-- Time that passes is firings, each told with its instant, and waiting. -/
theorem passes_of_wait {operation : Operation} {answer : Except StageError (List TimedEvent)}
    (hwait : operation.isWait = true) (h : s.operateTimed? operation = some (s', answer)) :
    s.Passes s' (eventsOf answer) := by
  refine waiting_induction (P := s.Passes) ?_ hwait [] h ⟨[], .nil s, rfl, rfl⟩
  intro t t' target log events ht hadvance
  have hfire : ∀ {t log entry rest}, t.agenda.entries = entry :: rest →
      entry.due ≤ min target lastInstant → s.Passes t log →
        s.Passes ((t.arrive entry rest).fire entry.timer).1
          (log ++ ((t.arrive entry rest).fire entry.timer).1.stamp
            ((t.arrive entry rest).fire entry.timer).2) :=
    fun hentries _ ht => ht.snoc (.fire hentries) rfl
  -- behind what fires the clock is set
  obtain ⟨mid, hmid, hnone, rfl⟩ := advanceTimed?_induction hfire log hadvance ht
  have hlast := hmid.snoc (.wait hnone (Nat.min_le_right _ _)) rfl
  rwa [Incident.told, stamp, List.map_nil, List.append_nil] at hlast

/-- Refused or not, an operation has a journal. -/
theorem exists_journal_of_operateTimed? {operation : Operation}
    {answer : Except StageError (List TimedEvent)}
    (h : s.operateTimed? operation = some (s', answer)) :
    ∃ row, s.Journal row s' ∧ row.flatMap Incident.told = eventsOf answer ∧
      operationsOf row = [operation].filter (!·.isWait) := by
  cases hwait : operation.isWait with
  | true =>
      obtain ⟨row, hrow, hlog, hops⟩ := passes_of_wait hwait h
      exact ⟨row, hrow, hlog, by rw [hops]; simp [hwait]⟩
  | false =>
      cases operation with
      | load program =>
          cases h
          exact ⟨_, .single (.load s program), List.append_nil _, rfl⟩
      | input input =>
          obtain ⟨answer, hhandle, rfl⟩ := handle_of_operateTimed? h
          cases answer with
          | error e => exact ⟨_, .single (.refused hhandle), rfl, rfl⟩
          | ok events => exact ⟨_, .single (.input hhandle), List.append_nil _, rfl⟩
      | tick _ | advanceTo _ | settle => cases hwait

/-- The events that are told, without their instants. -/
theorem map_event_told (row : List Incident) :
    (row.flatMap Incident.told).map (·.event) = row.flatMap (·.events) := by
  simp only [List.map_flatMap, Incident.told, map_event_stamp]

theorem exists_journal_of_operate? {operation : Operation}
    {answer : Except StageError (List StageEvent)}
    (h : s.operate? operation = some (s', answer)) :
    ∃ row, s.Journal row s' ∧ row.flatMap (·.events) = eventsOf answer ∧
      operationsOf row = [operation].filter (!·.isWait) := by
  obtain ⟨timed, htimed, rfl⟩ := exists_operateTimed? h
  obtain ⟨row, hrow, htold, hops⟩ := exists_journal_of_operateTimed? htimed
  refine ⟨row, hrow, ?_, hops⟩
  rw [eventsOf_map, ← htold, map_event_told]

/-- Every row of operations has a journal. -/
theorem exists_journal {ops : List Operation} {records : List Record}
    (h : s.operateAll? ops = some (s', records)) :
    ∃ row, s.Journal row s' ∧
      row.flatMap (·.events) = records.flatMap (fun r => eventsOf r.answer) ∧
      operationsOf row = ops.filter (!·.isWait) := by
  induction ops generalizing s records with
  | nil =>
      cases h
      exact ⟨[], .nil _, rfl, rfl⟩
  | cons operation ops ih =>
      obtain ⟨mid, answer, rest, hop, hrest, rfl⟩ := operateAll?_cons_eq_some.1 h
      obtain ⟨first, hfirst, hevents, hops⟩ := exists_journal_of_operate? hop
      obtain ⟨row, hrow, hevents', hops'⟩ := ih hrest
      refine ⟨first ++ row, hfirst.append hrow, ?_, ?_⟩
      · rw [List.flatMap_append, hevents, hevents', List.flatMap_cons]
      · rw [operationsOf_append, hops, hops', ← List.filter_append, List.singleton_append]

end Operations

end Stage

/-- Every execution has a journal, from the new stage on. -/
theorem Execution.exists_journal {config : StageConfig} {s : Stage} {log : List TimedEvent}
    {plans : List Announcement} (h : Execution config s log plans) :
    ∃ start row, Stage.IsNew config start ∧ start.Journal row s ∧
      row.flatMap Incident.told = log := by
  induction h with
  | new hnew => exact ⟨_, [], hnew, .nil _, rfl⟩
  | operate _ hop ih =>
      obtain ⟨start, row, hnew, hrow, rfl⟩ := ih
      obtain ⟨later, hlater, htold, -⟩ := Stage.exists_journal_of_operateTimed? hop
      refine ⟨start, row ++ later, hnew, hrow.append hlater, ?_⟩
      rw [List.flatMap_append, htold]

end SpriteStage

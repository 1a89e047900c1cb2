import SpriteStage.Proofs.Continuations
set_option autoImplicit false

/-! # The course of a run

What the events of an execution say of each run that was started (`Execution.runs_take_their_course`). They begin
with the start of the run and go on with its steps, one after the other and each exactly one interval
after the one before it, until the clock ends. A run whose last step was made is finished at once; a
run that is cancelled says at which step it was; a run of which neither was said is still under way.
Nothing is said of a run after its end, and no number is given twice.

`Told config s owed log plans` is the invariant: the events so far fit the table of runs, the steps
that are scheduled, and the steps `owed` that are to be made at this very moment. -/

namespace SpriteStage

/-! ## What is said of a run -/

/-- The run that an event is about. -/
def StageEvent.run? : StageEvent → Option RunId
  | .runStarted run _ _ | .stepApplied run _ _ | .runFinished run | .runCancelled run _ => some run
  | _ => none

/-- Whether a run is started with this event. -/
def StageEvent.startsRun : StageEvent → Bool
  | .runStarted _ _ _ => true
  | _ => false

theorem StageEvent.not_startsRun_of_run? {event : StageEvent} (h : event.run? = none) :
    ¬ event.startsRun = true := by
  cases event <;> simp_all [run?, startsRun]

/-- The events of a log that are about a run. -/
def about (run : RunId) (log : List TimedEvent) : List TimedEvent :=
  log.filter fun e => decide (e.event.run? = some run)

theorem about_append (run : RunId) (log log' : List TimedEvent) :
    about run (log ++ log') = about run log ++ about run log' := List.filter_append _ _

theorem about_eq_nil {run : RunId} {log : List TimedEvent}
    (h : ∀ e ∈ log, e.event.run? ≠ some run) : about run log = [] :=
  List.filter_eq_nil_iff.2 fun e he => by simpa using h e he

theorem about_stamp_eq_nil {run : RunId} {s : Stage} {events : List StageEvent}
    (h : ∀ event ∈ events, event.run? ≠ some run) : about run (s.stamp events) = [] := by
  refine about_eq_nil fun e he => ?_
  obtain ⟨event, hevent, rfl⟩ := Stage.mem_stamp.1 he
  exact h event hevent

/-- The starts in a log are not changed by events that are none. -/
theorem filter_startsRun_append {log : List TimedEvent} (s : Stage) {events : List StageEvent}
    (h : ∀ event ∈ events, ¬ event.startsRun = true) :
    (log ++ s.stamp events).filter (·.event.startsRun) = log.filter (·.event.startsRun) := by
  have hnone : (s.stamp events).filter (·.event.startsRun) = [] := by
    refine List.filter_eq_nil_iff.2 fun e he => ?_
    obtain ⟨event, hevent, rfl⟩ := Stage.mem_stamp.1 he
    exact h event hevent
  rw [List.filter_append, hnone, List.append_nil]

namespace Announcement

variable (config : StageConfig) (a : Announcement)

/-- The instant at which a step is to be made. -/
def instantOf (index : Nat) : Instant := after a.start (index * config.stepIntervalMs)

/-- The event with which the run is started. -/
def startEvent : TimedEvent := ⟨a.start, .runStarted a.run a.origin a.actions.length⟩

/-- The event of a step that performs an action. -/
def stepEvent (index : Nat) (action : Action) : TimedEvent :=
  ⟨a.instantOf config index, .stepApplied a.run index action.name⟩

/-- The event with which the run is finished after its last step. -/
def finishEvent (last : Nat) : TimedEvent := ⟨a.instantOf config last, .runFinished a.run⟩

/-- The event with which the run is cancelled at a step. -/
def cancelEvent (instant : Instant) (index : Nat) : TimedEvent :=
  ⟨instant, .runCancelled a.run (some index)⟩

/-- What is to be said of the run when some of its steps are made. -/
def told (made : Nat) : List TimedEvent :=
  a.startEvent :: (a.actions.take made).mapIdx (a.stepEvent config)

theorem told_succ {index : Nat} {action : Action} (haction : a.actions[index]? = some action) :
    a.told config (index + 1) = a.told config index ++ [a.stepEvent config index action] := by
  obtain ⟨hi, rfl⟩ := List.getElem?_eq_some_iff.1 haction
  have hlength : (a.actions.take index).length = index := List.length_take_of_le (Nat.le_of_lt hi)
  rw [told, List.take_succ_eq_append_getElem hi, List.mapIdx_concat, hlength]
  rfl

theorem about_stepEvent (index : Nat) (action : Action) (rest : List TimedEvent) :
    about a.run (a.stepEvent config index action :: rest)
      = a.stepEvent config index action :: about a.run rest := by
  simp [about, stepEvent, StageEvent.run?]

theorem about_finishEvent (last : Nat) :
    about a.run [a.finishEvent config last] = [a.finishEvent config last] := by
  simp [about, finishEvent, StageEvent.run?]

theorem stamp_stepApplied {s : Stage} {index : Nat} (hnow : s.now = a.instantOf config index)
    (action : Action) (rest : List StageEvent) :
    s.stamp (.stepApplied a.run index action.name :: rest)
      = a.stepEvent config index action :: s.stamp rest := by
  simp [Stage.stamp, stepEvent, hnow]

theorem stamp_runFinished {s : Stage} {last : Nat} (hnow : s.now = a.instantOf config last) :
    s.stamp [.runFinished a.run] = [a.finishEvent config last] := by
  simp [Stage.stamp, finishEvent, hnow]

/-- The step after another one is an interval later. -/
theorem instantOf_succ (index : Nat) :
    a.instantOf config (index + 1) = after (a.instantOf config index) config.stepIntervalMs := by
  rw [instantOf, instantOf, after_after, Nat.succ_mul]

variable (s : Stage) (log : List TimedEvent)

/-- The run is off the table. -/
def Gone : Prop := ∀ r ∈ s.runs.runs, r.id ≠ a.run

/-- The run is on the table, and the steps before its next one are made. -/
def Held : Prop :=
  ∃ r ∈ s.runs.runs, r.id = a.run ∧ r.actions = a.actions ∧
    about a.run log = a.told config r.nextIndex

/-- The run is at one of its steps, with another one to come. -/
def Underway : Prop :=
  ∃ r ∈ s.runs.runs, r.id = a.run ∧ r.actions = a.actions ∧
    ∃ index, r.step = some index ∧ index + 1 < a.actions.length ∧
      about a.run log = a.told config (index + 1)

/-- All steps are made, and right behind the last one the run is finished. -/
def Finished : Prop :=
  ∃ last action, a.actions.length = last + 1 ∧ a.actions[last]? = some action ∧
    about a.run log = a.told config (last + 1) ++ [a.finishEvent config last] ∧
    [a.stepEvent config last action, a.finishEvent config last] <:+: log ∧ a.Gone s

/-- The run was cancelled at some step before its last one. -/
def Cancelled : Prop :=
  ∃ index instant, index + 1 < a.actions.length ∧
    about a.run log = a.told config (index + 1) ++ [a.cancelEvent instant index] ∧ a.Gone s

/-- The course of the run so far. -/
def Course : Prop := a.Held config s log ∨ a.Finished config s log ∨ a.Cancelled config s log

variable {config a s log}

/-- What is neither done to a run nor said of it leaves its course as it is. -/
theorem Course.frame {s' : Stage} {events : List TimedEvent} (h : a.Course config s log)
    (hruns : ∀ r : Run, r.id = a.run → (r ∈ s'.runs.runs ↔ r ∈ s.runs.runs))
    (hevents : about a.run events = []) : a.Course config s' (log ++ events) := by
  have habout : about a.run (log ++ events) = about a.run log := by
    rw [about_append, hevents, List.append_nil]
  have hgone : a.Gone s → a.Gone s' := fun h r hr hid => h r ((hruns r hid).1 hr) hid
  rcases h with ⟨r, hr, hid, hrest⟩ | ⟨last, action, hlast, haction, hlog, hinfix, hoff⟩ |
    ⟨index, instant, hindex, hlog, hoff⟩
  · exact Or.inl ⟨r, (hruns r hid).2 hr, hid, by rwa [habout]⟩
  · refine Or.inr (Or.inl ⟨last, action, hlast, haction, by rwa [habout], ?_, hgone hoff⟩)
    exact hinfix.trans (List.prefix_append log events).isInfix
  · exact Or.inr (Or.inr ⟨index, instant, hindex, by rwa [habout], hgone hoff⟩)

/-- A run on the table is held. -/
theorem Course.held {r : Run} (h : a.Course config s log) (hr : r ∈ s.runs.runs)
    (hid : r.id = a.run) (hascending : s.runs.Ascending) :
    r.actions = a.actions ∧ about a.run log = a.told config r.nextIndex := by
  rcases h with ⟨r', hr', hid', hactions, hlog⟩ | ⟨-, -, -, -, -, -, hoff⟩ | ⟨-, -, -, -, hoff⟩
  · rw [hascending.eq_of_id_eq hr hr' (hid.trans hid'.symm)]
    exact ⟨hactions, hlog⟩
  · exact absurd hid (hoff r hr)
  · exact absurd hid (hoff r hr)

section OfStep

variable {s' : Stage} {r : Run} {action : Action}

/-- A step was made, and another one is to come. -/
theorem Held.ofStep (hr : r ∈ s.runs.runs) (hid : r.id = a.run) (hactions : r.actions = a.actions)
    (hlog : about a.run log = a.told config r.nextIndex)
    (hnow : s.now = a.instantOf config r.nextIndex)
    (haction : a.actions[r.nextIndex]? = some action)
    (hruns : s'.runs = s.runs.moveTo r.id r.nextIndex) :
    a.Held config s' (log ++ s.stamp [.stepApplied r.id r.nextIndex action.name]) := by
  refine ⟨{ r with step := some r.nextIndex }, ?_, hid, hactions, ?_⟩
  · rw [hruns]
    exact RunTable.mem_moveTo_self hr r.nextIndex
  · rw [hid, a.stamp_stepApplied config hnow, about_append, hlog, a.about_stepEvent]
    exact (a.told_succ config haction).symm

/-- The last step was made. -/
theorem Finished.ofStep (hid : r.id = a.run) (hlog : about a.run log = a.told config r.nextIndex)
    (hnow : s.now = a.instantOf config r.nextIndex)
    (haction : a.actions[r.nextIndex]? = some action)
    (hlast : r.nextIndex + 1 = a.actions.length) (hruns : s'.runs = s.runs.remove r.id) :
    a.Finished config s'
      (log ++ s.stamp [.stepApplied r.id r.nextIndex action.name, .runFinished r.id]) := by
  have hevents : s.stamp [.stepApplied r.id r.nextIndex action.name, .runFinished r.id]
      = [a.stepEvent config r.nextIndex action, a.finishEvent config r.nextIndex] := by
    rw [hid, a.stamp_stepApplied config hnow, a.stamp_runFinished config hnow]
  rw [hevents]
  refine ⟨r.nextIndex, action, hlast.symm, haction, ?_, ?_, ?_⟩
  · rw [about_append, hlog, a.about_stepEvent, a.about_finishEvent, a.told_succ config haction,
      List.append_assoc]
    rfl
  · exact (List.suffix_append _ _).isInfix
  · intro x hx
    rw [hruns] at hx
    rw [← hid]
    exact (RunTable.mem_remove.1 hx).2

end OfStep

section OfCancelRuns

theorem about_cancelRuns (s : Stage) (run : RunId) :
    about run (s.stamp s.cancelRuns.2)
      = (s.runs.runs.filter fun r => decide (r.id = run)).map fun r =>
          ⟨s.now, .runCancelled r.id r.step⟩ := by
  simp [about, Stage.stamp, Stage.cancelRuns, RunTable.cancelAll, List.filter_map,
    Function.comp_def, StageEvent.run?]

/-- The run was on the table when the runs were cancelled. -/
theorem Cancelled.ofCancelRuns {r : Run} (h : Continued s []) (hr : r ∈ s.runs.runs)
    (hid : r.id = a.run) (hactions : r.actions = a.actions)
    (hlog : about a.run log = a.told config r.nextIndex) :
    a.Cancelled config s.cancelRuns.1 (log ++ s.stamp s.cancelRuns.2) := by
  -- a run that is on the table between two commands has made its first step
  have hpos := h.nextIndex_pos hr
  have hindex : r.nextIndex - 1 + 1 = r.nextIndex := Nat.sub_add_cancel hpos
  have honly := h.ascending.filter_id hr
  refine ⟨r.nextIndex - 1, s.now, ?_, ?_, fun _ hmem => absurd hmem List.not_mem_nil⟩
  · rw [hindex, ← hactions]
    exact h.short r hr
  · rw [hid] at honly
    rw [about_append, hlog, about_cancelRuns, honly, hindex]
    simp [cancelEvent, Run.step_of_nextIndex_pos hpos, hid]

end OfCancelRuns

end Announcement

/-! ## The invariant -/

/-- The events fit the plans, the table of runs and the agenda. -/
structure Told (config : StageConfig) (s : Stage) (owed : List (RunId × Nat))
    (log : List TimedEvent) (plans : List Announcement) : Prop where
  config_eq : s.config = config
  timely : Timely s
  continued : Continued s owed
  ascending : (plans.map (·.run)).Pairwise (· < ·)
  bounded : ∀ a ∈ plans, a.run ≤ s.runs.lastId
  planned : ∀ a ∈ plans, a.actions ≠ []
  started : log.filter (·.event.startsRun) = plans.map Announcement.startEvent
  announced : ∀ r ∈ s.runs.runs, ∃ a ∈ plans, a.run = r.id
  mentioned : ∀ e ∈ log, ∀ run, e.event.run? = some run → ∃ a ∈ plans, a.run = run
  course : ∀ a ∈ plans, a.Course config s log
  /-- The steps that are scheduled are due at their instants. -/
  due : ∀ a ∈ plans, ∀ index, ∀ e ∈ s.agenda.entries, e.timer = .step a.run index →
    e.due = a.instantOf config index
  /-- Now is the instant of the steps that are owed. -/
  now : ∀ a ∈ plans, ∀ index, (a.run, index) ∈ owed → s.now = a.instantOf config index

namespace Told

variable {config : StageConfig} {s s' : Stage} {owed : List (RunId × Nat)} {log : List TimedEvent}
  {plans : List Announcement}

/-- What neither touches the runs and their steps nor says anything of a run. -/
theorem frame (h : Told config s owed log plans) {events : List StageEvent}
    (htimely : Timely s') (hcontinued : Continued s' owed)
    (hconfig : s'.config = s.config) (hruns : s'.runs = s.runs)
    (hsteps : ∀ e ∈ s'.agenda.entries, e.timer.isStep = true → e ∈ s.agenda.entries)
    (hnow : owed = [] ∨ s'.now = s.now) (hquiet : ∀ event ∈ events, event.run? = none) :
    Told config s' owed (log ++ s'.stamp events) plans := by
  refine { h with
    config_eq := hconfig.trans h.config_eq
    timely := htimely
    continued := hcontinued
    bounded := hruns ▸ h.bounded
    started := ?started
    announced := hruns ▸ h.announced
    mentioned := ?mentioned
    course := ?course
    due := ?due
    now := ?now }
  case started =>
    rw [filter_startsRun_append s' fun event he =>
      StageEvent.not_startsRun_of_run? (hquiet event he)]
    exact h.started
  case mentioned =>
    intro e he run hrun
    rcases List.mem_append.1 he with he | he
    · exact h.mentioned e he run hrun
    · obtain ⟨event, hevent, rfl⟩ := Stage.mem_stamp.1 he
      rw [hquiet event hevent] at hrun
      cases hrun
  case course =>
    intro a ha
    refine (h.course a ha).frame (fun r _ => by rw [hruns]) (about_stamp_eq_nil fun event he => ?_)
    rw [hquiet event he]
    exact fun heq => absurd heq (by simp)
  case due =>
    intro a ha index e he htimer
    exact h.due a ha index e (hsteps e he (by rw [htimer]; rfl)) htimer
  case now =>
    intro a ha index hmem
    rcases hnow with rfl | hnow
    · cases hmem
    · rw [hnow]
      exact h.now a ha index hmem

/-! ## Steps -/

/-- What is done to one run and said of it, when its next step is made. -/
theorem ofStep {step : RunId × Nat} (h : Told config s (step :: owed) log plans) {r : Run}
    (hr : r ∈ s.runs.runs) {events : List StageEvent} (htimely : Timely s')
    (hcontinued : Continued s' owed) (hconfig : s'.config = s.config) (hnow : s'.now = s.now)
    (hlast : s'.runs.lastId = s.runs.lastId)
    (hruns : ∀ x ∈ s'.runs.runs, ∃ old ∈ s.runs.runs, old.id = x.id)
    (hothers : ∀ x : Run, x.id ≠ r.id → (x ∈ s'.runs.runs ↔ x ∈ s.runs.runs))
    (hevents : ∀ event ∈ events, event.run? = some r.id ∧ ¬ event.startsRun = true)
    (hcourse : ∀ a ∈ plans, a.run = r.id → a.Course config s' (log ++ s.stamp events))
    (hdue : ∀ a ∈ plans, ∀ index, ∀ e ∈ s'.agenda.entries, e.timer = .step a.run index →
      e.due = a.instantOf config index) :
    Told config s' owed (log ++ s.stamp events) plans := by
  refine { h with
    config_eq := hconfig.trans h.config_eq
    timely := htimely
    continued := hcontinued
    bounded := hlast ▸ h.bounded
    started := ?started
    announced := ?announced
    mentioned := ?mentioned
    course := ?course
    due := hdue
    now := ?now }
  case started =>
    rw [filter_startsRun_append s fun event he => (hevents event he).2]
    exact h.started
  case announced =>
    intro x hx
    obtain ⟨old, hold, hid⟩ := hruns x hx
    rw [← hid]
    exact h.announced old hold
  case mentioned =>
    intro e he run hrun
    rcases List.mem_append.1 he with he | he
    · exact h.mentioned e he run hrun
    · obtain ⟨event, hevent, rfl⟩ := Stage.mem_stamp.1 he
      rw [(hevents event hevent).1] at hrun
      cases hrun
      exact h.announced r hr
  case course =>
    intro a ha
    by_cases hrun : a.run = r.id
    · exact hcourse a ha hrun
    · refine (h.course a ha).frame (fun x hx => hothers x (hx ▸ hrun))
        (about_stamp_eq_nil fun event he => ?_)
      rw [(hevents event he).1]
      exact fun heq => hrun (Option.some.inj heq).symm
  case now =>
    intro a ha index hmem
    rw [hnow]
    exact h.now a ha index (List.mem_cons_of_mem _ hmem)

/-- A step that is owed is made now: its event is the next one to be told, and with the last step
    the run is finished. -/
theorem runStep {run : RunId} {index : Nat} (h : Told config s ((run, index) :: owed) log plans) :
    Told config (s.runStep run index).1 owed
      (log ++ s.stamp (s.runStep run index).2) plans := by
  obtain ⟨r, hr, rfl, rfl⟩ := h.continued.run_of_owed
  have hascending := h.continued.ascending
  have hfind := hascending.find?_of_mem hr
  have hshort := h.continued.short r hr
  have hheld := fun a ha hrun => (h.course a ha).held hr hrun hascending
  have hinstant : ∀ a ∈ plans, r.id = a.run → s.now = a.instantOf config r.nextIndex := by
    intro a ha hrun
    refine h.now a ha r.nextIndex ?_
    rw [hrun]
    exact List.mem_cons_self
  have htimely := h.timely.runStep r.id r.nextIndex
  have hcontinued := h.continued.runStep
  rcases s.runStep_cases r.id r.nextIndex with ⟨-, hnone⟩ | ⟨r', hi, hr', hcase⟩
  · exact absurd hshort (Nat.not_lt.2 (hnone r hfind))
  · obtain rfl : r = r' := Option.some.inj (hfind.symm.trans hr')
    have haction : r.actions[r.nextIndex]? = some r.actions[r.nextIndex] :=
      List.getElem?_eq_getElem hi
    generalize r.actions[r.nextIndex] = action at haction hcase
    -- entries that are not new are those from before the step
    have hold : ∀ a ∈ plans, ∀ index, ∀ e ∈ (s.perform action).agenda.entries,
        e.timer = .step a.run index → e.due = a.instantOf config index := by
      intro a ha index e he htimer
      have hclear : e.timer.isClear = false := by rw [htimer]; rfl
      exact h.due a ha index e (s.mem_of_mem_perform action he hclear) htimer
    rcases hcase with ⟨-, heq⟩ | ⟨hlast, heq⟩
    · -- the run goes on
      rw [heq] at htimely hcontinued ⊢
      dsimp only at htimely hcontinued ⊢
      refine h.ofStep hr htimely hcontinued ?_ ?_ rfl ?_ ?_ ?_ ?_ ?_
      · simp [Stage.scheduleAfter]
      · simp [Stage.scheduleAfter]
      · exact fun x hx => RunTable.exists_of_mem_moveTo hx
      · exact fun x hne => RunTable.mem_moveTo_of_ne hne
      · simp [StageEvent.run?, StageEvent.startsRun]
      · intro a ha hrun
        obtain ⟨hactions, hlog⟩ := hheld a ha hrun.symm
        rw [hactions] at haction
        exact Or.inl (.ofStep hr hrun.symm hactions hlog (hinstant a ha hrun.symm) haction rfl)
      · intro a ha index e he htimer
        rcases Agenda.mem_schedule.1 he with rfl | he
        · obtain ⟨hrun, rfl⟩ := Timer.step.inj htimer
          rw [a.instantOf_succ, ← hinstant a ha hrun, ← h.config_eq]
          exact congrArg (after · s.config.stepIntervalMs) (s.perform_now _)
        · exact hold a ha index e he htimer
    · -- the run is finished
      rw [heq] at htimely hcontinued ⊢
      dsimp only at htimely hcontinued ⊢
      refine h.ofStep hr htimely hcontinued ?_ ?_ rfl ?_ ?_ ?_ ?_ hold
      · simp
      · simp
      · exact fun x hx => ⟨x, (RunTable.mem_remove.1 hx).1, rfl⟩
      · exact fun x hne => RunTable.mem_remove.trans (and_iff_left hne)
      · simp [StageEvent.run?, StageEvent.startsRun]
      · intro a ha hrun
        obtain ⟨hactions, hlog⟩ := hheld a ha hrun.symm
        rw [hactions] at haction hlast
        exact Or.inr (Or.inl
          (.ofStep hrun.symm hlog (hinstant a ha hrun.symm) haction hlast rfl))

theorem firstSteps {ids : List RunId} (h : Told config s (ids.map (·, 0) ++ owed) log plans) :
    Told config (s.firstSteps ids).1 owed (log ++ s.stamp (s.firstSteps ids).2) plans := by
  induction ids generalizing s log with
  | nil => simpa [Stage.firstSteps, Stage.stamp] using h
  | cons run rest ih =>
      have hnow : (s.runStep run 0).1.now = s.now := s.runStep_now run 0
      rw [Stage.firstSteps_cons, Stage.stamp_append, ← List.append_assoc,
        ← Stage.stamp_congr hnow ((s.runStep run 0).1.firstSteps rest).2]
      exact ih h.runStep

/-! ## Starting runs -/

/-- A run that is started gets the next identifier, of which nothing has been said so far, and owes
    its first step at once. -/
theorem startRun (h : Told config s owed log plans) (origin : RunOrigin) {actions : List Action}
    (hactions : actions ≠ []) :
    Told config (s.startRun origin actions) (owed ++ [(s.runs.lastId + 1, 0)])
      (log ++ s.stamp [.runStarted (s.runs.lastId + 1) origin actions.length])
      (plans ++ [⟨s.runs.lastId + 1, origin, s.now, actions⟩]) := by
  have hold : ∀ a ∈ plans, a.run ≠ s.runs.lastId + 1 := fun a ha =>
    Nat.ne_of_lt (Nat.lt_succ_of_le (h.bounded a ha))
  have hnew : ∀ index, (s.runs.lastId + 1, index) ∉ owed ++ s.agenda.steps := fun index hmem =>
    Nat.not_succ_le_self _ (h.continued.le_lastId hmem)
  have hnothing : about (s.runs.lastId + 1) log = [] := about_eq_nil fun e he heq => by
    obtain ⟨a, ha, hrun⟩ := h.mentioned e he _ heq
    exact hold a ha hrun
  have hmem : ∀ r : Run, r ∈ (s.startRun origin actions).runs.runs ↔
      r ∈ s.runs.runs ∨ r = ⟨s.runs.lastId + 1, origin, actions, none⟩ := by
    intro r
    simp [Stage.startRun, RunTable.start]
  refine
    { config_eq := h.config_eq
      timely := h.timely.of_eq rfl rfl
      continued := h.continued.startRun origin hactions
      ascending := ?ascending
      bounded := ?bounded
      planned := ?planned
      started := ?started
      announced := ?announced
      mentioned := ?mentioned
      course := ?course
      due := ?due
      now := ?now }
  -- in each case an announcement is one of those before, or that of the new run
  case ascending =>
    rw [List.map_append, List.pairwise_append]
    refine ⟨h.ascending, List.pairwise_singleton _ _, ?_⟩
    intro x hx y hy
    obtain ⟨a, ha, rfl⟩ := List.mem_map.1 hx
    rw [List.mem_singleton.1 hy]
    exact Nat.lt_succ_of_le (h.bounded a ha)
  case bounded =>
    intro a ha
    rcases List.mem_append.1 ha with ha | ha
    · exact Nat.le_succ_of_le (h.bounded a ha)
    · rw [List.mem_singleton.1 ha]
      exact Nat.le_refl _
  case planned =>
    intro a ha
    rcases List.mem_append.1 ha with ha | ha
    · exact h.planned a ha
    · rw [List.mem_singleton.1 ha]
      exact hactions
  case started =>
    rw [List.filter_append, h.started, List.map_append]
    rfl
  case announced =>
    intro r hr
    rcases (hmem r).1 hr with hr | rfl
    · obtain ⟨a, ha, hrun⟩ := h.announced r hr
      exact ⟨a, List.mem_append_left _ ha, hrun⟩
    · exact ⟨_, List.mem_append_right _ List.mem_cons_self, rfl⟩
  case mentioned =>
    intro e he run hrun
    rcases List.mem_append.1 he with he | he
    · obtain ⟨a, ha, heq⟩ := h.mentioned e he run hrun
      exact ⟨a, List.mem_append_left _ ha, heq⟩
    · rw [List.mem_singleton.1 he] at hrun
      exact ⟨_, List.mem_append_right _ List.mem_cons_self, Option.some.inj hrun⟩
  case course =>
    intro a ha
    rcases List.mem_append.1 ha with ha | ha
    · refine (h.course a ha).frame (fun r hr => ?_) (about_eq_nil fun e he => ?_)
      · rw [hmem, or_iff_left]
        rintro rfl
        exact hold a ha hr.symm
      · rw [List.mem_singleton.1 he]
        exact fun heq => hold a ha (Option.some.inj heq).symm
    · rw [List.mem_singleton.1 ha]
      refine Or.inl ⟨_, (hmem _).2 (Or.inr rfl), rfl, rfl, ?_⟩
      rw [about_append, hnothing]
      simp [about, Stage.stamp, StageEvent.run?, Announcement.told, Announcement.startEvent,
        Run.nextIndex]
  case due =>
    intro a ha index e he htimer
    rcases List.mem_append.1 ha with ha | ha
    · exact h.due a ha index e he htimer
    · -- no step of the new run can be scheduled yet
      rw [List.mem_singleton.1 ha] at htimer
      refine absurd (List.mem_append_right owed (Agenda.mem_pick.2 ⟨e, he, ?_⟩)) (hnew index)
      rw [htimer]
      rfl
  case now =>
    intro a ha index hstep
    rcases List.mem_append.1 ha with ha | ha
    · rcases List.mem_append.1 hstep with hstep | hstep
      · exact h.now a ha index hstep
      · exact absurd (congrArg Prod.fst (List.mem_singleton.1 hstep)) (hold a ha)
    · rw [List.mem_singleton.1 ha] at hstep ⊢
      rcases List.mem_append.1 hstep with hstep | hstep
      · exact absurd (List.mem_append_left _ hstep) (hnew index)
      · -- the first step is to be made at once
        obtain rfl : index = 0 := congrArg Prod.snd (List.mem_singleton.1 hstep)
        rw [Announcement.instantOf, Nat.zero_mul, after_zero h.timely.now_le]
        rfl

theorem startRuns (h : Told config s owed log plans) (origin : RunOrigin)
    {runs : List (List Action)} (hruns : ∀ actions ∈ runs, actions ≠ []) :
    Told config (s.startRuns origin runs).1 (owed ++ (s.startRuns origin runs).2.1.map (·, 0))
      (log ++ s.stamp (s.startRuns origin runs).2.2)
      (plans ++ announceRuns origin s.now s.runs.lastId runs) := by
  induction runs generalizing s owed log plans with
  | nil => simpa [Stage.startRuns, Stage.stamp, announceRuns] using h
  | cons actions rest ih =>
      have hfirst := h.startRun origin (hruns actions List.mem_cons_self)
      have hrest := ih hfirst fun other hother => hruns other (List.mem_cons_of_mem _ hother)
      rw [List.append_assoc owed, List.append_assoc log, List.append_assoc plans] at hrest
      exact hrest

theorem dispatch (h : Told config s [] log plans) (origin : RunOrigin) :
    Told config (s.dispatch origin).1 [] (log ++ s.stamp (s.dispatch origin).2)
      (plans ++ s.announce origin) := by
  cases hplan : s.program.plan origin s.isPlaying with
  | ignore reason =>
      rw [Stage.dispatch_of_ignore hplan]
      simp only [Stage.announce, hplan, List.append_nil]
      refine h.frame h.timely h.continued rfl rfl ?_ (Or.inl rfl) ?_
      · exact fun e he _ => he
      · simp [StageEvent.run?]
  | start runs =>
      have hremembered : Told config { s with history := s.history.push (.capture s.sprite) } []
          (log ++ s.stamp [.historyPushed (s.history.push (.capture s.sprite)).depth]) plans := by
        refine h.frame (h.timely.of_eq rfl rfl) (h.continued.of_eq rfl rfl) rfl rfl ?_ (Or.inl rfl) ?_
        · exact fun e he _ => he
        · simp [StageEvent.run?]
      have hstarted : Told config (s.startAll origin runs).1
          ((s.startAll origin runs).2.1.map (·, 0) ++ [])
          (log ++ s.stamp [.historyPushed (s.history.push (.capture s.sprite)).depth]
            ++ s.stamp (s.startAll origin runs).2.2)
          (plans ++ announceRuns origin s.now s.runs.lastId runs) := by
        rw [List.append_nil]
        exact hremembered.startRuns origin (Program.startsSomething_of_plan hplan).2
      have hsteps := hstarted.firstSteps
      have hnow : (s.startAll origin runs).1.now = s.now := by rw [Stage.startAll_eq]
      rw [Stage.stamp_congr hnow, List.append_assoc, List.append_assoc, ← Stage.stamp_append,
        ← Stage.stamp_append] at hsteps
      rw [Stage.dispatch_of_start hplan]
      simp only [Stage.announce, hplan]
      exact hsteps

/-! ## Cancelling -/

/-- Cancelling says of each run on the table at which step it was. -/
theorem cancelRuns (h : Told config s [] log plans) :
    Told config s.cancelRuns.1 [] (log ++ s.stamp s.cancelRuns.2) plans := by
  have hevents : ∀ event ∈ s.cancelRuns.2, ∃ r ∈ s.runs.runs,
      event = .runCancelled r.id r.step := by
    intro event hevent
    simp only [Stage.cancelRuns, RunTable.cancelAll, List.map_map, List.mem_map] at hevent
    obtain ⟨r, hr, rfl⟩ := hevent
    exact ⟨r, hr, rfl⟩
  have hoff : ∀ r, r ∉ s.cancelRuns.1.runs.runs := fun _ => List.not_mem_nil
  refine { h with
    timely := h.timely.cancelRuns
    continued := h.continued.cancelRuns
    started := ?started
    announced := fun r hr => absurd hr (hoff r)
    mentioned := ?mentioned
    course := ?course
    due := ?due
    now := fun _ _ _ hmem => absurd hmem List.not_mem_nil }
  case started =>
    rw [filter_startsRun_append s fun event hevent => ?quiet]
    · exact h.started
    case quiet =>
      obtain ⟨r, -, rfl⟩ := hevents event hevent
      simp [StageEvent.startsRun]
  case mentioned =>
    intro e he run hrun
    rcases List.mem_append.1 he with he | he
    · exact h.mentioned e he run hrun
    · obtain ⟨event, hevent, rfl⟩ := Stage.mem_stamp.1 he
      obtain ⟨r, hr, rfl⟩ := hevents event hevent
      cases hrun
      exact h.announced r hr
  case course =>
    intro a ha
    by_cases hgone : a.Gone s
    · refine (h.course a ha).frame (fun r hid => ?_)
        (about_stamp_eq_nil fun event hevent heq => ?_)
      · exact iff_of_false (hoff r) fun hr => hgone r hr hid
      · obtain ⟨r, hr, rfl⟩ := hevents event hevent
        exact hgone r hr (Option.some.inj heq)
    · obtain ⟨r, hr, hid⟩ : ∃ r ∈ s.runs.runs, r.id = a.run := by
        simpa [Announcement.Gone] using hgone
      obtain ⟨hactions, hlog⟩ := (h.course a ha).held hr hid h.continued.ascending
      exact Or.inr (Or.inr (.ofCancelRuns h.continued hr hid hactions hlog))
  case due =>
    intro a ha index e he htimer
    exact h.due a ha index e (Agenda.mem_cancel.1 he).1 htimer

theorem undo (h : Told config s [] log plans) :
    Told config s.undo.1 [] (log ++ s.stamp s.undo.2) plans := by
  rcases s.undo_cases with ⟨-, heq⟩ | ⟨newest, rest, -, heq⟩
  · rw [heq]
    simpa [Stage.stamp] using h
  · have hbefore : Told config s.beforeUndo.1 [] (log ++ s.stamp s.beforeUndo.2) plans ∧
        s.beforeUndo.1.now = s.now := by
      unfold Stage.beforeUndo
      split
      · exact ⟨h.cancelRuns, rfl⟩
      · exact ⟨by simpa [Stage.stamp] using h, rfl⟩
    obtain ⟨hbefore, hnow⟩ := hbefore
    rw [heq, Stage.stamp_append, ← List.append_assoc, ← Stage.stamp_congr hnow [_]]
    refine hbefore.frame (hbefore.timely.of_eq rfl rfl) (hbefore.continued.of_eq rfl rfl) rfl rfl ?_
      (Or.inl rfl) ?_
    · exact fun e he _ => he
    · simp [StageEvent.run?]

theorem reset (h : Told config s [] log plans) :
    Told config s.reset.1 [] (log ++ s.stamp s.reset.2) plans := by
  have hreset : s.reset.2 = s.cancelRuns.2 ++ [.reset] := rfl
  have hcancelled := h.cancelRuns
  rw [hreset, Stage.stamp_append, ← List.append_assoc]
  refine hcancelled.frame h.timely.reset h.continued.reset rfl rfl ?_ (Or.inl rfl) ?_
  · intro e he _
    rcases s.reset_agenda with hagenda | hagenda
    · rw [hagenda] at he
      exact (Agenda.mem_cancel.1 he).1
    · rwa [hagenda] at he
  · simp [StageEvent.run?]

/-! ## The passage of time -/

/-- The first entry is taken off the agenda; the step that it makes, if it makes one, is owed. -/
theorem arrive (h : Told config s [] log plans) {entry : Appointment} {rest : List Appointment}
    (hentries : s.agenda.entries = entry :: rest)
    (hcontinued : Continued (s.arrive entry rest) owed)
    (howed : ∀ run index, (run, index) ∈ owed → entry.timer = .step run index) :
    Told config (s.arrive entry rest) owed log plans := by
  have hfirst : entry ∈ s.agenda.entries := hentries ▸ List.mem_cons_self
  have hrest : ∀ e ∈ rest, e ∈ s.agenda.entries := fun e he =>
    hentries ▸ List.mem_cons_of_mem _ he
  refine ⟨h.config_eq, h.timely.arrive hentries, hcontinued, h.ascending, h.bounded, h.planned,
    h.started, h.announced, h.mentioned, h.course, ?_, ?_⟩
  · intro a ha index e he htimer
    exact h.due a ha index e (hrest e he) htimer
  · intro a ha index hmem
    rw [h.timely.now_arrive hentries]
    exact h.due a ha index entry hfirst (howed a.run index hmem)

theorem fire (h : Told config s [] log plans) {entry : Appointment} {rest : List Appointment}
    (hentries : s.agenda.entries = entry :: rest) :
    Told config ((s.arrive entry rest).fire entry.timer).1 []
      (log ++ (s.arrive entry rest).stamp ((s.arrive entry rest).fire entry.timer).2) plans := by
  have hfired := (h.timely.arrive hentries).fire entry.timer
  have hcontinued := h.continued.fire hentries
  have hnone : ∀ run index, (run, index) ∈ [] → entry.timer = .step run index :=
    fun _ _ hmem => absurd hmem List.not_mem_nil
  cases htimer : entry.timer with
  | step run index =>
      refine (h.arrive hentries (h.continued.arrive_step hentries htimer) ?_).runStep
      intro run' index' hmem
      obtain ⟨rfl, rfl⟩ := Prod.mk.inj (List.mem_singleton.1 hmem)
      exact htimer
  | clear cell version =>
      have harrive := h.arrive hentries (h.continued.arrive hentries (by rw [htimer]; rfl)) hnone
      rw [htimer] at hfired hcontinued
      rcases (s.arrive entry rest).fireClear_cases cell version with heq | heq <;>
        simp only [Stage.fire, heq] at hfired hcontinued ⊢
      · refine harrive.frame hfired hcontinued rfl rfl ?_ (Or.inl rfl) ?_
        · exact fun e he _ => he
        · simp [StageEvent.run?]
      · refine harrive.frame hfired hcontinued rfl rfl ?_ (Or.inl rfl) ?_
        · exact fun e he _ => he
        · simp [StageEvent.run?]
  | demoTick session =>
      have harrive := h.arrive hentries (h.continued.arrive hentries (by rw [htimer]; rfl)) hnone
      rw [htimer] at hfired hcontinued
      rcases (s.arrive entry rest).fireDemoTick_cases session with ⟨-, heq⟩ | ⟨-, -, heq⟩ <;>
        simp only [Stage.fire, heq] at hfired hcontinued ⊢
      · refine harrive.frame hfired hcontinued rfl rfl ?_ (Or.inl rfl) ?_
        · exact fun e he _ => he
        · exact fun _ hmem => absurd hmem List.not_mem_nil
      · refine harrive.frame hfired hcontinued rfl rfl ?_ (Or.inl rfl) ?_
        · intro e he hstep
          rcases Agenda.mem_schedule.1 he with rfl | he
          · cases hstep
          · exact he
        · simp [StageEvent.run?]

end Told

/-- Every move is told. -/
theorem Stage.Moves.told {config : StageConfig} {s s' : Stage} {log : List TimedEvent}
    {plans started : List Announcement} {events : List StageEvent}
    (m : Moves s events started s') (h : Told config s [] log plans) :
    Told config s' [] (log ++ s'.stamp events) (plans ++ started) := by
  have htimely := m.timely h.timely
  have hcontinued := m.continued h.continued
  cases m with
  | click origin =>
      rw [Stage.stamp_congr (s.dispatch_now origin)]
      exact h.dispatch origin
  | undo =>
      rw [List.append_nil, Stage.stamp_congr s.undo_now]
      exact h.undo
  | reset =>
      rw [List.append_nil]
      exact h.reset
  | fire hentries =>
      rw [List.append_nil, Stage.stamp_congr (Stage.fire_now _ _)]
      exact h.fire hentries
  | once action =>
      rw [List.append_nil]
      refine h.frame htimely hcontinued (s.perform_config action) (s.perform_runs action) ?_
        (Or.inl rfl) ?_
      · intro e he hstep
        exact s.mem_of_mem_perform action he (Timer.isClear_of_isStep hstep)
      · simp [StageEvent.run?]
  | closeDemo =>
      rw [List.append_nil]
      refine h.frame htimely hcontinued rfl rfl ?_ (Or.inl rfl) ?_
      · intro e he _
        rcases s.closeDemo_agenda with hagenda | hagenda
        · rw [hagenda] at he
          exact (Agenda.mem_cancel.1 he).1
        · rwa [hagenda] at he
      · simp [StageEvent.run?]
  | startDemo hopen hidle =>
      rw [List.append_nil]
      refine h.frame htimely hcontinued rfl rfl ?_ (Or.inl rfl) ?_
      · intro e he hstep
        rcases Agenda.mem_schedule.1 he with rfl | he
        · cases hstep
        · exact he
      · simp [StageEvent.run?]
  | nothing | replace _ | point _ | calibrate _ | resize _ | openDemo | wait _ _ =>
      rw [List.append_nil]
      refine h.frame htimely hcontinued rfl rfl ?_ (Or.inl rfl) ?_
      · exact fun e he _ => he
      · simp [StageEvent.run?]

theorem Stage.IsNew.told {config : StageConfig} {s : Stage} (h : s.IsNew config) :
    Told config s [] [] [] := by
  have htimely := h.timely
  have hcontinued := h.continued
  obtain ⟨-, program, generator, -, rfl⟩ := h
  exact ⟨rfl, htimely, hcontinued, List.Pairwise.nil, nofun, nofun, rfl, nofun, nofun, nofun, nofun,
    nofun⟩

theorem Execution.told {config : StageConfig} {s : Stage} {log : List TimedEvent}
    {plans : List Announcement} (h : Execution config s log plans) : Told config s [] log plans :=
  h.induction (fun _ hnew => hnew.told) fun _ _ _ _ _ _ hs hmove => hmove.told hs

/-! ## The course of every run -/

/-- The events of an execution say of every run that was started what its course was so far. The
    starts stand in the order of the numbers, all of which are different. Of a run it is told that it
    was started, and then its steps `0, 1, …` with the actions as they were planned, each at its
    instant; the run is under way between two of its steps, or it was finished right after the last
    one, or it was cancelled at one before, and after its end nothing is told of it. -/
theorem Execution.runs_take_their_course {config : StageConfig} {s : Stage} {log : List TimedEvent}
    {plans : List Announcement} (h : Execution config s log plans) :
    log.filter (·.event.startsRun) = plans.map Announcement.startEvent ∧
    (plans.map (·.run)).Pairwise (· < ·) ∧
    ∀ a ∈ plans, a.actions ≠ [] ∧
      (a.Underway config s log ∨ a.Finished config s log ∨ a.Cancelled config s log) := by
  have hs := h.told
  refine ⟨hs.started, hs.ascending, fun a ha => ⟨hs.planned a ha, ?_⟩⟩
  rcases hs.course a ha with ⟨r, hr, hid, hactions, hlog⟩ | hended
  · have hpos := hs.continued.nextIndex_pos hr
    have hindex : r.nextIndex - 1 + 1 = r.nextIndex := Nat.sub_add_cancel hpos
    refine Or.inl ⟨r, hr, hid, hactions, r.nextIndex - 1, Run.step_of_nextIndex_pos hpos, ?_, ?_⟩
    · rw [hindex, ← hactions]
      exact hs.continued.short r hr
    · rw [hindex]
      exact hlog
  · exact Or.inr hended

/-- A run of two moves after a click on the flag. -/
theorem course_of_two_moves :
    let start := Stage.new ⟨[[.trigger .flagClicked, .move 10, .move 10]], none⟩
    let s := (start.dispatch (.trigger .flagClicked)).1
    let a : Announcement := ⟨1, .trigger .flagClicked, 0, [.move 10, .move 10]⟩
    ∃ log, Execution {} s log [a] ∧
      (a.Underway {} s log ∨ a.Finished {} s log ∨ a.Cancelled {} s log) := by
  intro start s a
  have hclick : start.operateTimed? (.input .flagClicked)
      = some (Stage.accepted (Stage.stamped (start.dispatch (.trigger .flagClicked)))) := rfl
  have hexecution : Execution {} s _ [a] := .operate (.new (Stage.isNew_new _)) hclick
  obtain ⟨-, -, hcourse⟩ := hexecution.runs_take_their_course
  exact ⟨_, hexecution, (hcourse a List.mem_cons_self).2⟩

end SpriteStage

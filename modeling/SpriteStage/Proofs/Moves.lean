import SpriteStage.Proofs.Agenda
import SpriteStage.Proofs.Runs
import SpriteStage.Stage.Passage
set_option autoImplicit false

/-! # What can happen on a stage

`Stage.Moves` lists the smallest things that happen on a stage: an input is answered, an action is
performed, the first entry of the agenda fires, the clock is set when nothing is due. Every operation
is a row of moves, so what all moves keep holds on every stage that can be reached.

The lemmas before it say what each part of a move leaves as it is. Performing an action writes the
sprite, the generator, the pointer and at most one clearing in the agenda; a step of a run is an
action, an entry for the next step, and a note in the table of runs. -/

namespace SpriteStage

namespace Stage

/-! ## Performing an action -/

/-- The result of an action on the sprite, were it performed now. -/
def performed (s : Stage) (action : Action) : Performed :=
  action.perform ⟨(s.pointer.flush s.now).current, s.centre⟩ s.config.randomExtent s.generator
    s.sprite

theorem perform_eq (s : Stage) (action : Action) :
    s.perform action
      = ({ s with
          pointer := s.pointer.flush s.now
          sprite := (s.performed action).sprite
          generator := (s.performed action).generator } : Stage).scheduleClear
            (s.performed action).clear := rfl

section Frame

variable (s : Stage) (action : Action) (request : Option ClearRequest)

@[simp] theorem scheduleClear_config : (s.scheduleClear request).config = s.config := by
  cases request <;> rfl

@[simp] theorem scheduleClear_program : (s.scheduleClear request).program = s.program := by
  cases request <;> rfl

@[simp] theorem scheduleClear_sprite : (s.scheduleClear request).sprite = s.sprite := by
  cases request <;> rfl

@[simp] theorem scheduleClear_runs : (s.scheduleClear request).runs = s.runs := by
  cases request <;> rfl

@[simp] theorem scheduleClear_history : (s.scheduleClear request).history = s.history := by
  cases request <;> rfl

@[simp] theorem scheduleClear_pointer : (s.scheduleClear request).pointer = s.pointer := by
  cases request <;> rfl

@[simp] theorem scheduleClear_demo : (s.scheduleClear request).demo = s.demo := by
  cases request <;> rfl

@[simp] theorem scheduleClear_now : (s.scheduleClear request).now = s.now := by
  cases request <;> rfl

@[simp] theorem perform_config : (s.perform action).config = s.config := by simp [perform_eq]

@[simp] theorem perform_program : (s.perform action).program = s.program := by simp [perform_eq]

@[simp] theorem perform_runs : (s.perform action).runs = s.runs := by simp [perform_eq]

@[simp] theorem perform_history : (s.perform action).history = s.history := by simp [perform_eq]

@[simp] theorem perform_demo : (s.perform action).demo = s.demo := by simp [perform_eq]

@[simp] theorem perform_now : (s.perform action).now = s.now := by simp [perform_eq]

@[simp] theorem perform_pointer : (s.perform action).pointer = s.pointer.flush s.now := by
  simp [perform_eq]

/-- An action enters at most one clearing in the agenda. -/
theorem perform_agenda :
    (s.perform action).agenda = s.agenda ∨
      ∃ ms cell version, (s.perform action).agenda
        = s.agenda.schedule (after s.now ms) (.clear cell version) := by
  rw [perform_eq]
  cases (s.performed action).clear with
  | none => exact Or.inl rfl
  | some r => exact Or.inr ⟨r.afterMs, r.cell, r.version, rfl⟩

/-- An action enters nothing but a clearing in the agenda. -/
theorem dues_perform {α : Type} {kind : Timer → Option α}
    (hk : ∀ cell version, kind (.clear cell version) = none) :
    (s.perform action).agenda.dues kind = s.agenda.dues kind := by
  rcases s.perform_agenda action with h | ⟨ms, cell, version, h⟩
  · rw [h]
  · rw [h, Agenda.dues_schedule_of_none _ _ (hk cell version)]

theorem pick_perform {α : Type} {kind : Timer → Option α}
    (hk : ∀ cell version, kind (.clear cell version) = none) :
    (s.perform action).agenda.pick kind = s.agenda.pick kind :=
  Agenda.pick_eq_of_dues_eq (s.dues_perform action hk)

theorem mem_of_mem_perform {e : Appointment} (he : e ∈ (s.perform action).agenda.entries)
    (hclear : e.timer.isClear = false) : e ∈ s.agenda.entries := by
  rcases s.perform_agenda action with h | ⟨ms, cell, version, h⟩
  · rwa [h] at he
  · rw [h] at he
    rcases Agenda.mem_schedule.1 he with rfl | he
    · cases hclear
    · exact he

/-- An action does not look at the runs. -/
theorem perform_withRuns (runs : RunTable) :
    ({ s with runs } : Stage).perform action = { s.perform action with runs } := by
  have hsame : ({ s with runs } : Stage).performed action = s.performed action := rfl
  rw [perform_eq, perform_eq, hsame]
  cases (s.performed action).clear <;> rfl

end Frame

/-! ## Making a step -/

/-- Everything that the step of a run can do. If the run is under way and has the step, its action
    is performed, and either the next step is scheduled or the run is over. -/
theorem runStep_cases (s : Stage) (run : RunId) (index : Nat) :
    (s.runStep run index = (s, []) ∧
      ∀ r, s.runs.find? run = some r → r.actions.length ≤ index) ∨
    ∃ r, ∃ hi : index < r.actions.length, s.runs.find? run = some r ∧
      ((index + 1 < r.actions.length ∧ s.runStep run index
          = (({ s.perform r.actions[index] with
                runs := s.runs.moveTo run index } : Stage).scheduleAfter s.config.stepIntervalMs
                  (.step run (index + 1)),
              [.stepApplied run index r.actions[index].name])) ∨
        (index + 1 = r.actions.length ∧ s.runStep run index
          = ({ s.perform r.actions[index] with runs := s.runs.remove run },
              [.stepApplied run index r.actions[index].name, .runFinished run]))) := by
  by_cases hstep : ∀ r, s.runs.find? run = some r → r.actions.length ≤ index
  · refine Or.inl ⟨?_, hstep⟩
    rw [runStep, RunTable.enter?_eq_none hstep]
  · simp only [Classical.not_forall, Nat.not_le] at hstep
    obtain ⟨r, hr, hi⟩ := hstep
    refine Or.inr ⟨r, hi, hr, ?_⟩
    -- the run is moved before its action is performed, which makes no difference to the action
    have hcomplete := RunTable.complete_moveTo hr index
    have hperform := s.perform_withRuns r.actions[index] (s.runs.moveTo run index)
    rcases Nat.lt_or_eq_of_le (Nat.succ_le_of_lt hi) with hlt | heq
    · rw [if_pos hlt] at hcomplete
      refine Or.inl ⟨hlt, ?_⟩
      simp only [runStep, RunTable.enter?_of_find? hr hi, hperform, hcomplete, perform_config]
    · rw [if_neg (Nat.not_lt.2 (Nat.le_of_eq heq.symm))] at hcomplete
      refine Or.inr ⟨heq, ?_⟩
      simp only [runStep, RunTable.enter?_of_find? hr hi, hperform, hcomplete]

section Frame

variable (s : Stage) (run : RunId) (index : Nat)

@[simp] theorem runStep_config : (s.runStep run index).1.config = s.config := by
  rcases s.runStep_cases run index with ⟨h, -⟩ | ⟨r, hi, -, ⟨-, h⟩ | ⟨-, h⟩⟩ <;>
    simp [h, scheduleAfter]

@[simp] theorem runStep_history : (s.runStep run index).1.history = s.history := by
  rcases s.runStep_cases run index with ⟨h, -⟩ | ⟨r, hi, -, ⟨-, h⟩ | ⟨-, h⟩⟩ <;>
    simp [h, scheduleAfter]

@[simp] theorem runStep_demo : (s.runStep run index).1.demo = s.demo := by
  rcases s.runStep_cases run index with ⟨h, -⟩ | ⟨r, hi, -, ⟨-, h⟩ | ⟨-, h⟩⟩ <;>
    simp [h, scheduleAfter]

@[simp] theorem runStep_now : (s.runStep run index).1.now = s.now := by
  rcases s.runStep_cases run index with ⟨h, -⟩ | ⟨r, hi, -, ⟨-, h⟩ | ⟨-, h⟩⟩ <;>
    simp [h, scheduleAfter]

/-- A step enters nothing in the agenda but a clearing and the next step. -/
theorem dues_runStep {α : Type} {kind : Timer → Option α}
    (hclear : ∀ cell version, kind (.clear cell version) = none)
    (hstep : ∀ id next, kind (.step id next) = none) :
    (s.runStep run index).1.agenda.dues kind = s.agenda.dues kind := by
  rcases s.runStep_cases run index with ⟨h, -⟩ | ⟨r, hi, -, ⟨-, h⟩ | ⟨-, h⟩⟩
  · rw [h]
  · rw [h]
    exact (Agenda.dues_schedule_of_none _ _ (hstep run (index + 1))).trans
      (s.dues_perform _ hclear)
  · rw [h]
    exact s.dues_perform _ hclear

end Frame

/-! ## Starting runs -/

/-- A run is put on the table, before its first step. -/
def startRun (s : Stage) (origin : RunOrigin) (actions : List Action) : Stage :=
  { s with runs := (s.runs.start origin actions).2 }

theorem startRuns_cons (s : Stage) (origin : RunOrigin) (actions : List Action)
    (rest : List (List Action)) :
    s.startRuns origin (actions :: rest)
      = (((s.startRun origin actions).startRuns origin rest).1,
          (s.runs.lastId + 1) :: ((s.startRun origin actions).startRuns origin rest).2.1,
          .runStarted (s.runs.lastId + 1) origin actions.length
            :: ((s.startRun origin actions).startRuns origin rest).2.2) := rfl

/-- Starting runs changes nothing but the table of runs. -/
theorem startRuns_eq (s : Stage) (origin : RunOrigin) (runs : List (List Action)) :
    (s.startRuns origin runs).1 = { s with runs := (s.startRuns origin runs).1.runs } := by
  induction runs generalizing s with
  | nil => rfl
  | cons actions rest ih =>
      rw [startRuns_cons]
      exact ih (s.startRun origin actions)

theorem firstSteps_cons (s : Stage) (run : RunId) (rest : List RunId) :
    s.firstSteps (run :: rest)
      = (((s.runStep run 0).1.firstSteps rest).1,
          (s.runStep run 0).2 ++ ((s.runStep run 0).1.firstSteps rest).2) := rfl

section Frame

variable (s : Stage) (ids : List RunId)

@[simp] theorem firstSteps_config : (s.firstSteps ids).1.config = s.config := by
  induction ids generalizing s with
  | nil => rfl
  | cons run rest ih => rw [firstSteps_cons, ih, runStep_config]

@[simp] theorem firstSteps_history : (s.firstSteps ids).1.history = s.history := by
  induction ids generalizing s with
  | nil => rfl
  | cons run rest ih => rw [firstSteps_cons, ih, runStep_history]

@[simp] theorem firstSteps_demo : (s.firstSteps ids).1.demo = s.demo := by
  induction ids generalizing s with
  | nil => rfl
  | cons run rest ih => rw [firstSteps_cons, ih, runStep_demo]

@[simp] theorem firstSteps_now : (s.firstSteps ids).1.now = s.now := by
  induction ids generalizing s with
  | nil => rfl
  | cons run rest ih => rw [firstSteps_cons, ih, runStep_now]

/-- First steps enter nothing in the agenda but clearings and next steps. -/
theorem dues_firstSteps {α : Type} {kind : Timer → Option α}
    (hclear : ∀ cell version, kind (.clear cell version) = none)
    (hstep : ∀ id next, kind (.step id next) = none) :
    (s.firstSteps ids).1.agenda.dues kind = s.agenda.dues kind := by
  induction ids generalizing s with
  | nil => rfl
  | cons run rest ih => rw [firstSteps_cons, ih, s.dues_runStep run 0 hclear hstep]

end Frame

/-- The sprite is remembered and runs are put on the table. -/
def startAll (s : Stage) (origin : RunOrigin) (runs : List (List Action)) :
    Stage × List RunId × List StageEvent :=
  ({ s with history := s.history.push (.capture s.sprite) } : Stage).startRuns origin runs

theorem startAll_eq (s : Stage) (origin : RunOrigin) (runs : List (List Action)) :
    (s.startAll origin runs).1 = { s with
      history := s.history.push (.capture s.sprite)
      runs := (s.startAll origin runs).1.runs } :=
  startRuns_eq _ origin runs

theorem dispatch_of_ignore {s : Stage} {origin : RunOrigin} {reason : IgnoreReason}
    (h : s.program.plan origin s.isPlaying = .ignore reason) :
    s.dispatch origin = (s, [.triggerIgnored origin.trigger? reason]) := by
  simp [dispatch, h]

theorem dispatch_of_start {s : Stage} {origin : RunOrigin} {runs : List (List Action)}
    (h : s.program.plan origin s.isPlaying = .start runs) :
    s.dispatch origin
      = (((s.startAll origin runs).1.firstSteps (s.startAll origin runs).2.1).1,
          .historyPushed (s.history.push (.capture s.sprite)).depth :: (s.startAll origin runs).2.2
            ++ ((s.startAll origin runs).1.firstSteps (s.startAll origin runs).2.1).2) := by
  have hhistory : (s.startAll origin runs).1.history = s.history.push (.capture s.sprite) := by
    rw [startAll_eq]
  have hdispatch : s.dispatch origin
      = (((s.startAll origin runs).1.firstSteps (s.startAll origin runs).2.1).1,
          .historyPushed ((s.startAll origin runs).1.firstSteps
              (s.startAll origin runs).2.1).1.history.depth :: (s.startAll origin runs).2.2
            ++ ((s.startAll origin runs).1.firstSteps (s.startAll origin runs).2.1).2) := by
    simp only [dispatch, h]
    rfl
  rw [hdispatch, firstSteps_history, hhistory]

end Stage

/-- A plan that starts runs starts at least one, and each has something to do. -/
theorem Program.startsSomething_of_plan {p : Program} {origin : RunOrigin} {playing : Bool}
    {runs : List (List Action)} (h : p.plan origin playing = .start runs) :
    runs.isEmpty = false ∧ ∀ actions ∈ runs, actions ≠ [] := by
  have hruns : ∀ candidates : List (List Action),
      Plan.ofRuns (candidates.filter (!·.isEmpty)) = .start runs →
        runs.isEmpty = false ∧ ∀ actions ∈ runs, actions ≠ [] := by
    intro candidates hof
    unfold Plan.ofRuns at hof
    split at hof
    · cases hof
    · rename_i hsome
      cases hof
      refine ⟨Bool.eq_false_iff.2 hsome, fun actions hmem => ?_⟩
      simpa using (List.mem_filter.1 hmem).2
  cases origin with
  | runAll => exact hruns _ h
  | trigger event =>
      simp only [plan] at h
      split at h
      · cases h
      · exact hruns _ h

namespace Stage

/-! ## Undoing -/

/-- What an undo does before it puts the sprite back: unless stale timers fire, it cancels. -/
def beforeUndo (s : Stage) : Stage × List StageEvent :=
  if s.config.stalePolicy = .drop then s.cancelRuns else (s, [])

/-- Everything that an undo can do. -/
theorem undo_cases (s : Stage) :
    (s.history.memories = [] ∧ s.undo = (s, [])) ∨
    ∃ newest rest, s.history.memories = newest :: rest ∧
      s.undo = ({ s.beforeUndo.1 with
            history := { s.history with memories := rest }
            sprite := newest.restore s.sprite },
          s.beforeUndo.2 ++ [.undone rest.length]) := by
  cases hm : s.history.memories with
  | nil => exact Or.inl ⟨rfl, by simp [undo, hm]⟩
  | cons newest rest =>
      refine Or.inr ⟨newest, rest, rfl, ?_⟩
      -- cancelling leaves what is remembered and the sprite alone
      have hhistory : s.beforeUndo.1.history = s.history := by
        unfold beforeUndo
        split <;> rfl
      have hsprite : s.beforeUndo.1.sprite = s.sprite := by
        unfold beforeUndo
        split <;> rfl
      have hundo : s.beforeUndo.1.history.undo? s.beforeUndo.1.sprite
          = some ({ s.history with memories := rest }, newest.restore s.sprite) := by
        rw [hhistory, hsprite, UndoHistory.undo?, hm]
      unfold undo
      rw [hm, List.isEmpty_cons, if_neg Bool.false_ne_true, ← beforeUndo]
      simp only [hundo, UndoHistory.depth]

end Stage

namespace Stage

theorem dispatch_now (s : Stage) (origin : RunOrigin) : (s.dispatch origin).1.now = s.now := by
  cases hplan : s.program.plan origin s.isPlaying with
  | ignore reason => rw [dispatch_of_ignore hplan]
  | start runs => rw [dispatch_of_start hplan, firstSteps_now, startAll_eq]

theorem dispatch_demo (s : Stage) (origin : RunOrigin) : (s.dispatch origin).1.demo = s.demo := by
  cases hplan : s.program.plan origin s.isPlaying with
  | ignore reason => rw [dispatch_of_ignore hplan]
  | start runs => rw [dispatch_of_start hplan, firstSteps_demo, startAll_eq]

/-- A click enters nothing in the agenda but clearings and next steps. -/
theorem dues_dispatch (s : Stage) (origin : RunOrigin) {α : Type} {kind : Timer → Option α}
    (hclear : ∀ cell version, kind (.clear cell version) = none)
    (hstep : ∀ id next, kind (.step id next) = none) :
    (s.dispatch origin).1.agenda.dues kind = s.agenda.dues kind := by
  cases hplan : s.program.plan origin s.isPlaying with
  | ignore reason => rw [dispatch_of_ignore hplan]
  | start runs =>
      rw [dispatch_of_start hplan, dues_firstSteps _ _ hclear hstep, startAll_eq]

theorem undo_now (s : Stage) : s.undo.1.now = s.now := by
  rcases s.undo_cases with ⟨-, heq⟩ | ⟨newest, rest, -, heq⟩
  · rw [heq]
  · rw [heq]
    unfold beforeUndo
    split <;> rfl

theorem undo_demo (s : Stage) : s.undo.1.demo = s.demo := by
  rcases s.undo_cases with ⟨-, heq⟩ | ⟨newest, rest, -, heq⟩
  · rw [heq]
  · rw [heq]
    unfold beforeUndo
    split <;> rfl

/-- An undo cancels nothing but steps. -/
theorem dues_undo (s : Stage) {α : Type} {kind : Timer → Option α}
    (hstep : ∀ timer x, kind timer = some x → timer.isStep = false) :
    s.undo.1.agenda.dues kind = s.agenda.dues kind := by
  rcases s.undo_cases with ⟨-, heq⟩ | ⟨newest, rest, -, heq⟩
  · rw [heq]
  · rw [heq]
    unfold beforeUndo
    split
    · exact s.agenda.dues_cancel_of_false hstep
    · rfl

/-- Closing the window cancels nothing but ticks of the demo. -/
theorem closeDemo_agenda (s : Stage) :
    s.closeDemo.1.agenda = s.agenda.cancel Timer.isDemoTick ∨ s.closeDemo.1.agenda = s.agenda := by
  cases hanimating : s.demo.isAnimating with
  | true => exact Or.inl (by simp [closeDemo, hanimating])
  | false => exact Or.inr (by simp [closeDemo, hanimating])

/-- A reset cancels nothing but runs and clearings. -/
theorem reset_agenda (s : Stage) :
    s.reset.1.agenda = s.cancelRuns.1.agenda.cancel Timer.isClear ∨
      s.reset.1.agenda = s.cancelRuns.1.agenda := by
  by_cases hpolicy : s.config.stalePolicy = .drop
  · exact Or.inl (by simp [reset, cancelRuns, hpolicy])
  · exact Or.inr (by simp [reset, cancelRuns, hpolicy])

theorem dues_reset (s : Stage) {α : Type} {kind : Timer → Option α}
    (hstep : ∀ timer x, kind timer = some x → timer.isStep = false)
    (hclear : ∀ timer x, kind timer = some x → timer.isClear = false) :
    s.reset.1.agenda.dues kind = s.agenda.dues kind := by
  have hcancel : s.cancelRuns.1.agenda.dues kind = s.agenda.dues kind :=
    s.agenda.dues_cancel_of_false hstep
  rcases s.reset_agenda with hagenda | hagenda
  · rw [hagenda, Agenda.dues_cancel_of_false _ hclear, hcancel]
  · rw [hagenda, hcancel]

end Stage

/-! ## Moving the demo on -/

section Frame

variable (d : Demo)

/-- A step of the cats changes nothing but the cats and the count of steps. -/
theorem Demo.step_eq : d.step.1 = { d with ticks := d.ticks + 1, cats := d.step.1.cats } := by
  unfold Demo.step
  dsimp only
  split
  · split <;> rfl
  · rfl

@[simp] theorem Demo.step_config : d.step.1.config = d.config := by rw [step_eq]

@[simp] theorem Demo.step_isOpen : d.step.1.isOpen = d.isOpen := by rw [step_eq]

@[simp] theorem Demo.step_isAnimating : d.step.1.isAnimating = d.isAnimating := by rw [step_eq]

@[simp] theorem Demo.step_session : d.step.1.session = d.session := by rw [step_eq]

end Frame

namespace Stage

/-- A tick of the demo is made, and the next one is scheduled. -/
def demoTick (s : Stage) : Stage :=
  ({ s with demo := s.demo.step.1 } : Stage).scheduleAfter s.demo.config.tickMs
    (.demoTick s.demo.session)

/-- Everything that a timer of the demo can do. -/
theorem fireDemoTick_cases (s : Stage) (session : Nat) :
    ((s.demo.isAnimating = true → session ≠ s.demo.session) ∧ s.fireDemoTick session = (s, [])) ∨
    (s.demo.isAnimating = true ∧ session = s.demo.session ∧
      s.fireDemoTick session = (s.demoTick, s.demo.step.2.toList.map .demoFlipped)) := by
  unfold fireDemoTick
  split
  · rename_i h
    obtain ⟨hanimating, rfl⟩ := h
    refine Or.inr ⟨hanimating, rfl, ?_⟩
    simp [demoTick]
  · rename_i h
    exact Or.inl ⟨fun hanimating heq => h ⟨hanimating, heq⟩, rfl⟩

/-- Everything that the clearing of a cell can do. -/
theorem fireClear_cases (s : Stage) (cell : Cell) (version : Nat) :
    s.fireClear cell version = ({ s with sprite := s.sprite.clear cell }, [.cleared cell]) ∨
      s.fireClear cell version = (s, [.staleTimerDropped (Timer.clear cell version).label]) := by
  unfold fireClear
  split
  · exact Or.inl rfl
  · exact Or.inr rfl

section Frame

variable (s : Stage) (timer : Timer)

@[simp] theorem fire_config : (s.fire timer).1.config = s.config := by
  cases timer with
  | step run index => exact s.runStep_config run index
  | clear cell version => rcases s.fireClear_cases cell version with h | h <;> simp [fire, h]
  | demoTick session =>
      rcases s.fireDemoTick_cases session with ⟨-, h⟩ | ⟨-, -, h⟩ <;>
        simp [fire, h, demoTick, scheduleAfter]

@[simp] theorem fire_now : (s.fire timer).1.now = s.now := by
  cases timer with
  | step run index => exact s.runStep_now run index
  | clear cell version => rcases s.fireClear_cases cell version with h | h <;> simp [fire, h]
  | demoTick session =>
      rcases s.fireDemoTick_cases session with ⟨-, h⟩ | ⟨-, -, h⟩ <;>
        simp [fire, h, demoTick, scheduleAfter]

@[simp] theorem fire_demo_config : (s.fire timer).1.demo.config = s.demo.config := by
  cases timer with
  | step run index => exact congrArg Demo.config (s.runStep_demo run index)
  | clear cell version => rcases s.fireClear_cases cell version with h | h <;> simp [fire, h]
  | demoTick session =>
      rcases s.fireDemoTick_cases session with ⟨-, h⟩ | ⟨-, -, h⟩ <;>
        simp [fire, h, demoTick, scheduleAfter]

@[simp] theorem fire_demo_isAnimating :
    (s.fire timer).1.demo.isAnimating = s.demo.isAnimating := by
  cases timer with
  | step run index => exact congrArg Demo.isAnimating (s.runStep_demo run index)
  | clear cell version => rcases s.fireClear_cases cell version with h | h <;> simp [fire, h]
  | demoTick session =>
      rcases s.fireDemoTick_cases session with ⟨-, h⟩ | ⟨-, -, h⟩ <;>
        simp [fire, h, demoTick, scheduleAfter]

end Frame

/-! ## Firing and waiting -/

/-- The first entry is taken off the agenda, with the clock at the instant at which it is due. -/
def arrive (s : Stage) (entry : Appointment) (rest : List Appointment) : Stage :=
  { s with agenda := { s.agenda with entries := rest }, now := max s.now entry.due }

/-- The clock is set to an instant, and the pointer is looked at. -/
def waitUntil (s : Stage) (target : Instant) : Stage :=
  { s with now := max s.now target, pointer := s.pointer.flush (max s.now target) }

theorem fireNext?_eq_some {s : Stage} {target : Instant} {result : Stage × List StageEvent} :
    s.fireNext? target = some result ↔
      ∃ entry rest, s.agenda.entries = entry :: rest ∧ entry.due ≤ target ∧
        result = (s.arrive entry rest).fire entry.timer := by
  unfold fireNext? Agenda.popDue?
  cases hentries : s.agenda.entries with
  | nil => simp
  | cons entry rest =>
      by_cases hdue : entry.due ≤ target
      · simp only [hdue, ↓reduceIte, Option.some.injEq, List.cons.injEq]
        constructor
        · rintro rfl
          exact ⟨entry, rest, ⟨rfl, rfl⟩, hdue, rfl⟩
        · rintro ⟨_, _, ⟨rfl, rfl⟩, -, rfl⟩
          rfl
      · simp only [hdue, ↓reduceIte, reduceCtorEq, List.cons.injEq, false_iff]
        rintro ⟨_, _, ⟨rfl, rfl⟩, hle, -⟩
        exact hdue hle

/-- What was fired. -/
theorem exists_of_fireNext? {s mid : Stage} {target : Instant} {events : List StageEvent}
    (h : s.fireNext? target = some (mid, events)) :
    ∃ entry rest, s.agenda.entries = entry :: rest ∧ entry.due ≤ target ∧
      mid = ((s.arrive entry rest).fire entry.timer).1 ∧
      events = ((s.arrive entry rest).fire entry.timer).2 := by
  obtain ⟨entry, rest, hentries, hdue, hresult⟩ := fireNext?_eq_some.1 h
  exact ⟨entry, rest, hentries, hdue, congrArg Prod.fst hresult, congrArg Prod.snd hresult⟩

theorem fireNext?_eq_none {s : Stage} {target : Instant} :
    s.fireNext? target = none ↔ ∀ e ∈ s.agenda.entries.head?, target < e.due := by
  unfold fireNext? Agenda.popDue?
  cases hentries : s.agenda.entries with
  | nil => simp
  | cons entry rest =>
      by_cases hdue : entry.due ≤ target
      · simp [hdue]
      · simpa [hdue] using Nat.lt_of_not_le hdue

/-- A stage is settled if nothing but ticks of the demo is to come. -/
theorem isSettled_iff {s : Stage} :
    s.isSettled = true ↔ ∀ e ∈ s.agenda.entries, e.timer.isDemoTick = true := by
  simp [isSettled, Agenda.any]

theorem advanceTo?_eq (s : Stage) (target : Instant) :
    s.advanceTo? target
      = (s.drain (min target lastInstant) (s.workUntil (min target lastInstant))).map
          fun result => (result.1.waitUntil (min target lastInstant), result.2) := by
  simp only [advanceTo?]
  cases s.drain (min target lastInstant) (s.workUntil (min target lastInstant)) <;> rfl

end Stage

/-! ## Moves -/

/-- A run as it was planned when it was started. -/
structure Announcement where
  run : RunId
  origin : RunOrigin
  start : Instant
  actions : List Action

/-- Number planned runs from the one after the last number on. -/
def announceRuns (origin : RunOrigin) (start : Instant) :
    RunId → List (List Action) → List Announcement
  | _, [] => []
  | last, actions :: rest =>
    ⟨last + 1, origin, start, actions⟩ :: announceRuns origin start (last + 1) rest

namespace Stage

/-- The runs that a click starts. -/
def announce (s : Stage) (origin : RunOrigin) : List Announcement :=
  match s.program.plan origin s.isPlaying with
  | .ignore _ => []
  | .start runs => announceRuns origin s.now s.runs.lastId runs

/-- The smallest things that happen on a stage, with their events and the runs they start. -/
inductive Moves : Stage → List StageEvent → List Announcement → Stage → Prop
  | nothing (s : Stage) : Moves s [] [] s
  | replace (s : Stage) (program : Program) : Moves s [] [] { s with program }
  | click (s : Stage) (origin : RunOrigin) :
      Moves s (s.dispatch origin).2 (s.announce origin) (s.dispatch origin).1
  | once (s : Stage) (action : Action) :
      Moves s [.actionApplied action.name] [] (s.perform action)
  | undo (s : Stage) : Moves s s.undo.2 [] s.undo.1
  | reset (s : Stage) : Moves s s.reset.2 [] s.reset.1
  | point (s : Stage) (position : Point) :
      Moves s [] [] { s with pointer := (s.pointer.record position s.now).2 }
  | calibrate (s : Stage) (position : Point) : Moves s [] [] (s.calibrate position)
  | resize (s : Stage) (width : Float) : Moves s [] [] { s with demo := s.demo.resize width }
  | openDemo (s : Stage) : Moves s [.demoOpened] [] s.openDemo.1
  | closeDemo (s : Stage) : Moves s [.demoClosed] [] s.closeDemo.1
  | startDemo {s : Stage} (hopen : s.demo.isOpen = true) (hidle : s.demo.isAnimating = false) :
      Moves s [.demoStarted (s.demo.session + 1)] []
        (({ s with demo := { s.demo with isAnimating := true, session := s.demo.session + 1 } } :
          Stage).scheduleAfter s.demo.config.tickMs (.demoTick (s.demo.session + 1)))
  | fire {s : Stage} {entry : Appointment} {rest : List Appointment}
      (hentries : s.agenda.entries = entry :: rest) :
      Moves s ((s.arrive entry rest).fire entry.timer).2 []
        ((s.arrive entry rest).fire entry.timer).1
  | wait {s : Stage} {target : Instant} (hnone : s.fireNext? target = none)
      (hlast : target ≤ lastInstant) : Moves s [] [] (s.waitUntil target)

theorem startDemo_eq {s : Stage} (hopen : s.demo.isOpen = true)
    (hidle : s.demo.isAnimating = false) :
    startDemo.on s =
      (({ s with demo := { s.demo with isAnimating := true, session := s.demo.session + 1 } } :
          Stage).scheduleAfter s.demo.config.tickMs (.demoTick (s.demo.session + 1)),
        .ok [.demoStarted (s.demo.session + 1)]) := by
  simp [startDemo, Demo.start?, hopen, hidle, Except.map]

/-- The answers to inputs, input by input: the stage afterwards and the events. -/
inductive Answers (s : Stage) : StageInput → Stage → List StageEvent → Prop
  | click {input : StageInput} {origin : RunOrigin} (horigin : input.origin? = some origin) :
      Answers s input (s.dispatch origin).1 (s.dispatch origin).2
  | otherKey (code : String) : Answers s (.keyDown (.other code)) s []
  | point (position : Point) :
      Answers s (.pointerMoved position) { s with pointer := (s.pointer.record position s.now).2 }
        []
  | undo : Answers s .undo s.undo.1 s.undo.2
  | reset : Answers s .reset s.reset.1 s.reset.2
  | once {descriptor : Descriptor} {action : Action}
      (haction : Action.ofDescriptor descriptor = .ok action) :
      Answers s (.clicked descriptor) (s.perform action) [.actionApplied action.name]
  | calibrate (position : Point) : Answers s (.spriteCentre position) (s.calibrate position) []
  | resize (width : Float) :
      Answers s (.viewportResized width) { s with demo := s.demo.resize width } []
  | openDemo : Answers s .demoOpen s.openDemo.1 [.demoOpened]
  | closeDemo : Answers s .demoClose s.closeDemo.1 [.demoClosed]
  | startDemo (hopen : s.demo.isOpen = true) (hidle : s.demo.isAnimating = false) :
      Answers s .demoStart
        (({ s with demo := { s.demo with isAnimating := true, session := s.demo.session + 1 } } :
          Stage).scheduleAfter s.demo.config.tickMs (.demoTick (s.demo.session + 1)))
        [.demoStarted (s.demo.session + 1)]
  | walking (hopen : s.demo.isOpen = true) (hwalking : s.demo.isAnimating = true) :
      Answers s .demoStart s []

theorem startDemo_of_walking {s : Stage} (hopen : s.demo.isOpen = true)
    (hwalking : s.demo.isAnimating = true) : startDemo.on s = (s, .ok []) := by
  simp [startDemo, Demo.start?, hopen, hwalking]

theorem startDemo_of_closed {s : Stage} (hclosed : s.demo.isOpen = false) :
    startDemo.on s = (s, .error .demoNotOpen) := by
  simp [startDemo, hclosed]

/-- What is a click is dispatched. -/
theorem handle_of_origin {s : Stage} {input : StageInput} {origin : RunOrigin}
    (h : input.origin? = some origin) : s.handle input = accepted (s.dispatch origin) := by
  cases input with
  | flagClicked | spriteClicked | runAll =>
      cases h
      rfl
  | keyDown key =>
      cases key with
      | space =>
          cases h
          rfl
      | other code => cases h
  | pointerMoved _ | undo | reset | clicked _ | spriteCentre _ | viewportResized _ | demoOpen
  | demoClose | demoStart => cases h

theorem handle_clicked (s : Stage) (descriptor : Descriptor) :
    s.handle (.clicked descriptor) =
      match Action.ofDescriptor descriptor with
      | .ok action => (s.perform action, .ok [.actionApplied action.name])
      | .error cause => (s, .error (.invalidAction cause)) := by
  have htrigger : (StageInput.clicked descriptor).trigger? = none := rfl
  rw [handle, answer, htrigger]
  cases Action.ofDescriptor descriptor <;> rfl

/-- Everything that `handle` can do: answer an input, or refuse it and leave the stage alone. -/
theorem handle_cases (s : Stage) (input : StageInput) :
    (∃ s' events, s.handle input = (s', .ok events) ∧ s.Answers input s' events) ∨
    (∃ descriptor cause, input = .clicked descriptor ∧
      Action.ofDescriptor descriptor = .error cause ∧
      s.handle input = (s, .error (.invalidAction cause))) ∨
    (input = .demoStart ∧ s.demo.isOpen = false ∧ s.handle input = (s, .error .demoNotOpen)) := by
  cases input with
  | pointerMoved position => exact Or.inl ⟨_, _, rfl, .point position⟩
  | keyDown key =>
      cases key with
      | space => exact Or.inl ⟨_, _, handle_of_origin rfl, .click rfl⟩
      | other code => exact Or.inl ⟨_, _, rfl, .otherKey code⟩
  | spriteClicked | flagClicked | runAll => exact Or.inl ⟨_, _, handle_of_origin rfl, .click rfl⟩
  | undo => exact Or.inl ⟨_, _, rfl, .undo⟩
  | reset => exact Or.inl ⟨_, _, rfl, .reset⟩
  | clicked descriptor =>
      cases haction : Action.ofDescriptor descriptor with
      | error cause =>
          exact Or.inr (Or.inl
            ⟨descriptor, cause, rfl, haction, by rw [handle_clicked, haction]⟩)
      | ok action => exact Or.inl ⟨_, _, by rw [handle_clicked, haction], .once haction⟩
  | spriteCentre position => exact Or.inl ⟨_, _, rfl, .calibrate position⟩
  | viewportResized width => exact Or.inl ⟨_, _, rfl, .resize width⟩
  | demoOpen => exact Or.inl ⟨_, _, rfl, .openDemo⟩
  | demoClose => exact Or.inl ⟨_, _, rfl, .closeDemo⟩
  | demoStart =>
      cases hopen : s.demo.isOpen with
      | false => exact Or.inr (Or.inr ⟨rfl, rfl, startDemo_of_closed hopen⟩)
      | true =>
          cases hanimating : s.demo.isAnimating with
          | true =>
              exact Or.inl ⟨_, _, startDemo_of_walking hopen hanimating, .walking hopen hanimating⟩
          | false =>
              exact Or.inl ⟨_, _, startDemo_eq hopen hanimating, .startDemo hopen hanimating⟩

theorem answers_of_handle {s s' : Stage} {input : StageInput} {events : List StageEvent}
    (h : s.handle input = (s', .ok events)) : s.Answers input s' events := by
  rcases s.handle_cases input with ⟨t, later, hanswer, ha⟩ | ⟨_, _, -, -, herror⟩ | ⟨-, -, herror⟩
  · rw [hanswer] at h
    cases h
    exact ha
  · rw [herror] at h
    cases h
  · rw [herror] at h
    cases h

/-- What is refused, and why. Nothing is changed before the error, so the stage is as it was. -/
theorem refused_cases {s s' : Stage} {input : StageInput} {e : StageError}
    (h : s.handle input = (s', .error e)) :
    s' = s ∧ ((∃ descriptor cause, input = .clicked descriptor ∧
      Action.ofDescriptor descriptor = .error cause ∧ e = .invalidAction cause) ∨
      (input = .demoStart ∧ s.demo.isOpen = false ∧ e = .demoNotOpen)) := by
  rcases s.handle_cases input with ⟨_, _, hanswer, -⟩ |
    ⟨descriptor, cause, hinput, haction, herror⟩ | ⟨hinput, hclosed, herror⟩
  · rw [hanswer] at h
    cases h
  · rw [herror] at h
    cases h
    exact ⟨rfl, Or.inl ⟨descriptor, cause, hinput, haction, rfl⟩⟩
  · rw [herror] at h
    cases h
    exact ⟨rfl, Or.inr ⟨hinput, hclosed, rfl⟩⟩

theorem eq_of_refused {s s' : Stage} {input : StageInput} {e : StageError}
    (h : s.handle input = (s', .error e)) : s' = s := (refused_cases h).1

/-- The runs that an input starts. -/
def announceInput (s : Stage) (input : StageInput) : List Announcement :=
  input.origin?.elim [] s.announce

/-- An input that is refused is none that starts runs. -/
theorem announceInput_of_refused {s s' : Stage} {input : StageInput} {e : StageError}
    (h : s.handle input = (s', .error e)) : s.announceInput input = [] := by
  rcases (refused_cases h).2 with ⟨_, _, rfl, -⟩ | ⟨rfl, -⟩ <;> rfl

/-- Answering an input is one move. -/
theorem moves_of_handle {s s' : Stage} {input : StageInput} {events : List StageEvent}
    (h : s.handle input = (s', .ok events)) : Moves s events (s.announceInput input) s' := by
  cases answers_of_handle h with
  | @click _ origin horigin =>
      have hannounced : s.announceInput input = s.announce origin := by
        rw [announceInput, horigin, Option.elim_some]
      rw [hannounced]
      exact .click s origin
  | otherKey code => exact .nothing s
  | point position => exact .point s position
  | undo => exact .undo s
  | reset => exact .reset s
  | once _ => exact .once s _
  | calibrate position => exact .calibrate s position
  | resize width => exact .resize s width
  | openDemo => exact .openDemo s
  | closeDemo => exact .closeDemo s
  | startDemo hopen hidle => exact .startDemo hopen hidle
  | walking _ _ => exact .nothing s

/-- Firing the first entry is one move. -/
theorem moves_of_fireNext? {s s' : Stage} {target : Instant} {events : List StageEvent}
    (h : s.fireNext? target = some (s', events)) : Moves s events [] s' := by
  obtain ⟨entry, rest, hentries, -, rfl, rfl⟩ := exists_of_fireNext? h
  exact .fire hentries

end Stage

end SpriteStage

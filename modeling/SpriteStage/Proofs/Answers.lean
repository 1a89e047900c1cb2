import SpriteStage.Proofs.Operations
import SpriteStage.Proofs.RunCourse
set_option autoImplicit false

/-! # What operations answer

Which events an operation can answer with. While time passes nothing is told but steps and what
other timers do; the answer to an input, and to a program that is loaded, tells of no timer. So the
events show what an operation did, without a look at the stage. -/

namespace SpriteStage

namespace StageEvent

/-- Whether an event tells of a step of a run. -/
def isOfStep : StageEvent → Bool
  | .stepApplied _ _ _ | .runFinished _ => true
  | _ => false

/-- Whether an event tells of a timer that makes no step. -/
def isOfTimer : StageEvent → Bool
  | .cleared _ | .staleTimerDropped _ | .demoFlipped _ => true
  | _ => false

end StageEvent

namespace Stage

/-! ## Steps and starts -/

theorem runStep_isOfStep (s : Stage) (run : RunId) (index : Nat) :
    ∀ event ∈ (s.runStep run index).2, event.isOfStep = true := by
  rcases s.runStep_cases run index with ⟨heq, -⟩ | ⟨r, hi, -, ⟨-, heq⟩ | ⟨-, heq⟩⟩
  · rw [heq]
    exact nofun
  · simp [heq, StageEvent.isOfStep]
  · simp [heq, StageEvent.isOfStep]

theorem firstSteps_isOfStep (s : Stage) (ids : List RunId) :
    ∀ event ∈ (s.firstSteps ids).2, event.isOfStep = true := by
  induction ids generalizing s with
  | nil => exact nofun
  | cons run rest ih =>
      rw [firstSteps_cons]
      intro event hevent
      rcases List.mem_append.1 hevent with hfirst | hlater
      · exact s.runStep_isOfStep run 0 event hfirst
      · exact ih _ event hlater

/-- Starting runs says nothing but that they are started. -/
theorem startRuns_startsRun (s : Stage) (origin : RunOrigin) (runs : List (List Action)) :
    ∀ event ∈ (s.startRuns origin runs).2.2, event.startsRun = true := by
  induction runs generalizing s with
  | nil => exact nofun
  | cons actions rest ih =>
      rw [startRuns_cons]
      intro event hevent
      rcases List.mem_cons.1 hevent with rfl | hevent
      · rfl
      · exact ih _ event hevent

/-! ## While time passes -/

theorem fire_answer (s : Stage) (timer : Timer) :
    ∀ event ∈ (s.fire timer).2, event.isOfStep = true ∨ event.isOfTimer = true := by
  cases timer with
  | step run index => exact fun event hevent => Or.inl (s.runStep_isOfStep run index event hevent)
  | clear cell version =>
      rcases s.fireClear_cases cell version with heq | heq <;>
        simp [fire, heq, StageEvent.isOfTimer]
  | demoTick session =>
      rcases s.fireDemoTick_cases session with ⟨-, heq⟩ | ⟨-, -, heq⟩ <;>
        simp [fire, heq, StageEvent.isOfTimer]

/-- While time passes steps are made and other timers fire, and nothing else is told. -/
theorem wait_answer {s s' : Stage} {operation : Operation}
    {answer : Except StageError (List TimedEvent)} (hwait : operation.isWait = true)
    (h : s.operateTimed? operation = some (s', answer)) :
    ∀ e ∈ eventsOf answer, e.event.isOfStep = true ∨ e.event.isOfTimer = true := by
  let P : Stage → List TimedEvent → Prop := fun _ log =>
    ∀ e ∈ log, e.event.isOfStep = true ∨ e.event.isOfTimer = true
  have hadvance : ∀ {x x' target log more}, P x log → x.advanceTimed? target = some (x', more) →
      P x' (log ++ more) := by
    intro x x' target log more hlog hadvance
    obtain ⟨mid, hmid, -⟩ := advanceTimed?_induction (P := P)
      (fun {y log entry rest} _ _ hlog e he => by
        rcases List.mem_append.1 he with he | he
        · exact hlog e he
        · obtain ⟨event, hevent, rfl⟩ := mem_stamp.1 he
          exact (y.arrive entry rest).fire_answer entry.timer event hevent) log hadvance hlog
    exact hmid
  have hnone : P s [] := nofun
  exact waiting_induction hadvance hwait [] h hnone

/-! ## Without time -/

theorem dispatch_answer (s : Stage) (origin : RunOrigin) :
    ∀ event ∈ (s.dispatch origin).2, event.isOfTimer = false := by
  cases hplan : s.program.plan origin s.isPlaying with
  | ignore reason => simp [dispatch_of_ignore hplan, StageEvent.isOfTimer]
  | start runs =>
      rw [dispatch_of_start hplan]
      intro event hevent
      rcases List.mem_append.1 hevent with hstarted | hstep
      · rcases List.mem_cons.1 hstarted with rfl | hstarted
        · rfl
        · have hstarts := startRuns_startsRun _ origin runs event hstarted
          cases event <;> simp_all [StageEvent.startsRun, StageEvent.isOfTimer]
      · have hsteps := firstSteps_isOfStep _ _ event hstep
        cases event <;> simp_all [StageEvent.isOfStep, StageEvent.isOfTimer]

theorem cancelRuns_answer (s : Stage) :
    ∀ event ∈ s.cancelRuns.2, ∃ run atStep, event = .runCancelled run atStep := by
  intro event hevent
  simp only [cancelRuns, RunTable.cancelAll, List.map_map, List.mem_map] at hevent
  obtain ⟨r, -, rfl⟩ := hevent
  exact ⟨_, _, rfl⟩

theorem beforeUndo_answer (s : Stage) :
    ∀ event ∈ s.beforeUndo.2, ∃ run atStep, event = .runCancelled run atStep := by
  unfold beforeUndo
  split
  · exact s.cancelRuns_answer
  · exact nofun

theorem undo_tells (s : Stage) : ∀ event ∈ s.undo.2,
    (∃ run atStep, event = .runCancelled run atStep) ∨ ∃ depth, event = .undone depth := by
  rcases s.undo_cases with ⟨-, heq⟩ | ⟨newest, rest, -, heq⟩
  · rw [heq]
    exact nofun
  · rw [heq]
    intro event hevent
    rcases List.mem_append.1 hevent with hcancelled | hundone
    · exact Or.inl (s.beforeUndo_answer event hcancelled)
    · exact Or.inr ⟨_, List.mem_singleton.1 hundone⟩

theorem reset_tells (s : Stage) : ∀ event ∈ s.reset.2,
    (∃ run atStep, event = .runCancelled run atStep) ∨ event = .reset := by
  intro event hevent
  have hreset : s.reset.2 = s.cancelRuns.2 ++ [.reset] := rfl
  rw [hreset] at hevent
  rcases List.mem_append.1 hevent with hcancelled | hreset
  · exact Or.inl (s.cancelRuns_answer event hcancelled)
  · exact Or.inr (List.mem_singleton.1 hreset)

theorem undo_answer (s : Stage) : ∀ event ∈ s.undo.2, event.isOfTimer = false := by
  intro event hevent
  rcases s.undo_tells event hevent with ⟨_, _, rfl⟩ | ⟨_, rfl⟩ <;> rfl

theorem reset_answer (s : Stage) : ∀ event ∈ s.reset.2, event.isOfTimer = false := by
  intro event hevent
  rcases s.reset_tells event hevent with ⟨_, _, rfl⟩ | rfl <;> rfl

/-- The answer to an input tells of no timer but those that make steps. -/
theorem handle_answer {s s' : Stage} {input : StageInput} {events : List StageEvent}
    (h : s.handle input = (s', .ok events)) : ∀ event ∈ events, event.isOfTimer = false := by
  cases answers_of_handle h with
  | @click _ origin _ => exact s.dispatch_answer origin
  | undo => exact s.undo_answer
  | reset => exact s.reset_answer
  | once _ | otherKey _ | point _ | calibrate _ | resize _ | openDemo | closeDemo | startDemo _ _
  | walking _ _ => simp [StageEvent.isOfTimer]

/-- Without time nothing is told of a timer but those that make steps. -/
theorem still_answer {s s' : Stage} {operation : Operation}
    {answer : Except StageError (List TimedEvent)} (hwait : operation.isWait = false)
    (h : s.operateTimed? operation = some (s', answer)) :
    ∀ e ∈ eventsOf answer, e.event.isOfTimer = false := by
  cases operation with
  | tick _ | advanceTo _ | settle => cases hwait
  | load program =>
      cases h
      intro e he
      obtain ⟨event, hevent, rfl⟩ := mem_stamp.1 he
      unfold load at hevent
      cases hclicked : program.clicked <;>
        simp_all [performOnce, StageEvent.isOfTimer]
  | input input =>
      obtain ⟨answer, hhandle, rfl⟩ := handle_of_operateTimed? h
      cases answer with
      | error e => exact List.forall_mem_nil _
      | ok events =>
          intro e he
          obtain ⟨event, hevent, rfl⟩ := mem_stamp.1 he
          exact handle_answer hhandle event hevent

end Stage

end SpriteStage

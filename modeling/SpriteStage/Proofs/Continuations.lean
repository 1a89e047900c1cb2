import SpriteStage.Proofs.Timeliness
set_option autoImplicit false

/-! # Runs and the steps that are scheduled

Every run that is under way has exactly one step in the agenda, the one after the step it is at, and
no step is scheduled for any other run (`Reachable.one_continuation`). So no run is ever stuck, none
is driven twice, and nothing is left of a run that is over.

`Continued s owed` is what every move keeps: the steps that are scheduled, together with the steps
`owed` that are to be made at this very moment, are the next steps of the runs on the table. Between
moves nothing is owed; while a click is answered, the first steps of the new runs are, and while a
step fires, that step is. -/

namespace SpriteStage

/-- The steps that are scheduled, as numbers of runs and indices. -/
def Agenda.steps (a : Agenda) : List (RunId × Nat) := a.pick Timer.step?

/-- Whether a timer makes a step of a given run. -/
def Timer.isStepOf (run : RunId) : Timer → Bool
  | .step id _ => id == run
  | _ => false

/-! ## The invariant -/

/-- The scheduled and the owed steps are the next steps of the runs. No run is at its end, and only
    owed steps are first ones. -/
structure Continued (s : Stage) (owed : List (RunId × Nat)) : Prop where
  ascending : s.runs.Ascending
  steps : (owed ++ s.agenda.steps).Perm (s.runs.runs.map Run.nextStep)
  short : ∀ r ∈ s.runs.runs, r.nextIndex < r.actions.length
  later : ∀ step ∈ s.agenda.steps, 0 < step.2

namespace Continued

variable {s s' : Stage} {owed : List (RunId × Nat)}

theorem of_eq (h : Continued s owed) (hruns : s'.runs = s.runs)
    (hsteps : s'.agenda.steps = s.agenda.steps) : Continued s' owed where
  ascending := hruns ▸ h.ascending
  steps := by rw [hruns, hsteps]; exact h.steps
  short := by rw [hruns]; exact h.short
  later := by rw [hsteps]; exact h.later

/-- A step that is owed is the next one of a run on the table. -/
theorem run_of_owed {run : RunId} {index : Nat} (h : Continued s ((run, index) :: owed)) :
    ∃ r ∈ s.runs.runs, r.id = run ∧ r.nextIndex = index := by
  have hmem := h.steps.mem_iff.1 (List.mem_cons_self : (run, index) ∈ (run, index) :: (owed ++ _))
  obtain ⟨r, hr, heq⟩ := List.mem_map.1 hmem
  simp only [Run.nextStep, Prod.mk.injEq] at heq
  exact ⟨r, hr, heq⟩

/-- What is scheduled or owed is a step of a run that was started. -/
theorem le_lastId {step : RunId × Nat} (h : Continued s owed)
    (hstep : step ∈ owed ++ s.agenda.steps) : step.1 ≤ s.runs.lastId := by
  obtain ⟨r, hr, rfl⟩ := List.mem_map.1 (h.steps.mem_iff.1 hstep)
  exact h.ascending.bounded r hr

/-! ## Actions and steps -/

theorem perform (h : Continued s owed) (action : Action) : Continued (s.perform action) owed :=
  h.of_eq (s.perform_runs action) (s.pick_perform action fun _ _ => rfl)

/-- Making an owed step pays it: the next step of the run is scheduled, or the run is over. -/
theorem runStep {run : RunId} {index : Nat} (h : Continued s ((run, index) :: owed)) :
    Continued (s.runStep run index).1 owed := by
  obtain ⟨r, hr, rfl, rfl⟩ := h.run_of_owed
  have hfind := h.ascending.find?_of_mem hr
  obtain ⟨before, behind, hruns, hmove, hremove⟩ := h.ascending.split hr
  -- the other runs are continued by the other steps
  have hothers : (owed ++ s.agenda.steps).Perm ((before ++ behind).map Run.nextStep) := by
    have hsteps := h.steps
    rw [hruns, List.map_append, List.map_cons] at hsteps
    rw [List.map_append]
    exact (hsteps.trans List.perm_middle).cons_inv
  have hi : r.nextIndex < r.actions.length := h.short r hr
  have hperform : (s.perform r.actions[r.nextIndex]).agenda.steps = s.agenda.steps :=
    s.pick_perform _ fun _ _ => rfl
  rcases s.runStep_cases r.id r.nextIndex with ⟨-, hnone⟩ | ⟨r', hi', hr', hcase⟩
  · exact absurd hi (Nat.not_lt.2 (hnone r hfind))
  · obtain rfl : r = r' := Option.some.inj (hfind.symm.trans hr')
    rcases hcase with ⟨hlt, heq⟩ | ⟨-, heq⟩
    · -- the run goes on: its next step is scheduled
      have hscheduled : (s.runStep r.id r.nextIndex).1.agenda.steps.Perm
          ((r.id, r.nextIndex + 1) :: s.agenda.steps) := by
        rw [heq, ← hperform]
        exact Agenda.pick_schedule_of_some _ _ rfl
      have htable : (s.runStep r.id r.nextIndex).1.runs = s.runs.moveTo r.id r.nextIndex := by
        rw [heq]
        rfl
      refine ⟨htable ▸ h.ascending.moveTo _ _, ?_, ?_, ?_⟩
      · rw [htable, hmove, List.map_append, List.map_cons]
        rw [List.map_append] at hothers
        exact (hscheduled.append_left owed).trans
          (List.perm_middle.trans ((hothers.cons _).trans List.perm_middle.symm))
      · rw [htable, hmove]
        intro x hx
        rcases List.mem_append.1 hx with hx | hx
        · exact h.short x (hruns ▸ List.mem_append_left _ hx)
        · rcases List.mem_cons.1 hx with rfl | hx
          · exact hlt
          · exact h.short x (hruns ▸ List.mem_append_right _ (List.mem_cons_of_mem _ hx))
      · intro step hstep
        rcases List.mem_cons.1 (hscheduled.mem_iff.1 hstep) with rfl | hstep
        · exact Nat.succ_pos _
        · exact h.later step hstep
    · -- the run is over: it is off the table
      have hagenda : (s.runStep r.id r.nextIndex).1.agenda.steps = s.agenda.steps := by
        rw [heq, ← hperform]
      have htable : (s.runStep r.id r.nextIndex).1.runs = s.runs.remove r.id := by rw [heq]
      refine ⟨htable ▸ h.ascending.remove _, ?_, ?_, ?_⟩
      · rw [hagenda, htable, hremove]
        exact hothers
      · rw [htable]
        exact fun x hx => h.short x (RunTable.mem_remove.1 hx).1
      · rw [hagenda]
        exact h.later

theorem firstSteps {ids : List RunId} (h : Continued s (ids.map (·, 0) ++ owed)) :
    Continued (s.firstSteps ids).1 owed := by
  induction ids generalizing s with
  | nil => exact h
  | cons run rest ih =>
      rw [Stage.firstSteps_cons]
      exact ih h.runStep

/-! ## Starting runs -/

/-- A run that is put on the table is owed its first step. -/
theorem startRun (h : Continued s owed) (origin : RunOrigin) {actions : List Action}
    (hactions : actions ≠ []) :
    Continued (s.startRun origin actions) (owed ++ [(s.runs.lastId + 1, 0)]) where
  ascending := h.ascending.start origin actions
  steps := by
    have hnext : (s.startRun origin actions).runs.runs.map Run.nextStep
        = s.runs.runs.map Run.nextStep ++ [(s.runs.lastId + 1, 0)] := by
      simp [Stage.startRun, RunTable.start, Run.nextStep, Run.nextIndex]
    rw [hnext, List.append_assoc, List.singleton_append]
    exact List.perm_middle.trans ((h.steps.cons _).trans (List.perm_append_singleton _ _).symm)
  short r hr := by
    rcases List.mem_append.1 hr with hr | hr
    · exact h.short r hr
    · rw [List.mem_singleton.1 hr]
      exact List.length_pos_iff.2 hactions
  later := h.later

theorem startRuns (h : Continued s owed) (origin : RunOrigin) {runs : List (List Action)}
    (hruns : ∀ actions ∈ runs, actions ≠ []) :
    Continued (s.startRuns origin runs).1
      (owed ++ (s.startRuns origin runs).2.1.map (·, 0)) := by
  induction runs generalizing s owed with
  | nil => simpa [Stage.startRuns] using h
  | cons actions rest ih =>
      rw [Stage.startRuns_cons, List.map_cons, List.append_cons]
      exact ih (h.startRun origin (hruns actions List.mem_cons_self))
        fun other hother => hruns other (List.mem_cons_of_mem _ hother)

theorem dispatch (h : Continued s []) (origin : RunOrigin) :
    Continued (s.dispatch origin).1 [] := by
  cases hplan : s.program.plan origin s.isPlaying with
  | ignore reason => rwa [Stage.dispatch_of_ignore hplan]
  | start runs =>
      rw [Stage.dispatch_of_start hplan]
      have hremembered : Continued
          { s with history := s.history.push (.capture s.sprite) } [] := h.of_eq rfl rfl
      have hstarted := hremembered.startRuns origin (Program.startsSomething_of_plan hplan).2
      refine firstSteps ?_
      rwa [List.append_nil]

/-! ## Cancelling -/

theorem cancelRuns (h : Continued s owed) : Continued s.cancelRuns.1 [] := by
  have hsteps : s.cancelRuns.1.agenda.steps = [] :=
    s.agenda.pick_cancel_of_true Timer.isStep_of_step?
  refine ⟨h.ascending.cancelAll, ?_, nofun, ?_⟩
  · rw [hsteps]
    exact List.Perm.refl _
  · rw [hsteps]
    exact nofun

theorem undo (h : Continued s []) : Continued s.undo.1 [] := by
  rcases s.undo_cases with ⟨-, heq⟩ | ⟨newest, rest, -, heq⟩
  · rwa [heq]
  · have hbefore : Continued s.beforeUndo.1 [] := by
      unfold Stage.beforeUndo
      split
      · exact h.cancelRuns
      · exact h
    rw [heq]
    exact hbefore.of_eq rfl rfl

theorem reset (h : Continued s []) : Continued s.reset.1 [] := by
  refine h.cancelRuns.of_eq rfl ?_
  rcases s.reset_agenda with hagenda | hagenda
  · rw [hagenda]
    exact Agenda.pick_cancel_of_false _ Timer.isClear_of_step?
  · rw [hagenda]

/-! ## The demo and the passage of time -/

theorem closeDemo (h : Continued s []) : Continued s.closeDemo.1 [] := by
  refine h.of_eq rfl ?_
  rcases s.closeDemo_agenda with hagenda | hagenda
  · rw [hagenda]
    exact Agenda.pick_cancel_of_false _ Timer.isDemoTick_of_step?
  · rw [hagenda]

/-- A step that comes first in the agenda is owed when it is taken off. -/
theorem arrive_step (h : Continued s []) {entry : Appointment} {rest : List Appointment}
    (hentries : s.agenda.entries = entry :: rest) {run : RunId} {index : Nat}
    (htimer : entry.timer = .step run index) :
    Continued (s.arrive entry rest) [(run, index)] := by
  have hstep : entry.timer.step? = some (run, index) := by rw [htimer]; rfl
  have hsteps : s.agenda.steps = (run, index) :: (s.arrive entry rest).agenda.steps :=
    Agenda.pick_cons_of_some hentries hstep
  refine ⟨h.ascending, ?_, h.short, fun step hmem => h.later step ?_⟩
  · have hall := h.steps
    rwa [hsteps] at hall
  · rw [hsteps]
    exact List.mem_cons_of_mem _ hmem

/-- Taking any other entry off the agenda leaves the steps as they are. -/
theorem arrive (h : Continued s []) {entry : Appointment} {rest : List Appointment}
    (hentries : s.agenda.entries = entry :: rest) (htimer : entry.timer.step? = none) :
    Continued (s.arrive entry rest) [] :=
  h.of_eq rfl (Agenda.pick_cons_of_none hentries htimer)

theorem fire (h : Continued s []) {entry : Appointment} {rest : List Appointment}
    (hentries : s.agenda.entries = entry :: rest) :
    Continued ((s.arrive entry rest).fire entry.timer).1 [] := by
  cases htimer : entry.timer with
  | step run index => exact (h.arrive_step hentries htimer).runStep
  | clear cell version =>
      have harrive := h.arrive hentries (by rw [htimer]; rfl)
      rcases (s.arrive entry rest).fireClear_cases cell version with heq | heq
      · simp only [Stage.fire, heq]
        exact harrive.of_eq rfl rfl
      · simpa only [Stage.fire, heq] using harrive
  | demoTick session =>
      have harrive := h.arrive hentries (by rw [htimer]; rfl)
      rcases (s.arrive entry rest).fireDemoTick_cases session with ⟨-, heq⟩ | ⟨-, -, heq⟩
      · simpa only [Stage.fire, heq] using harrive
      · simp only [Stage.fire, heq]
        exact harrive.of_eq rfl (Agenda.pick_schedule_of_none _ _ rfl)

end Continued

/-- Every move leaves each run with one continuation. -/
theorem Stage.Moves.continued {s s' : Stage} {events : List StageEvent}
    {started : List Announcement} (m : Moves s events started s') (h : Continued s []) :
    Continued s' [] := by
  cases m with
  | nothing => exact h
  | replace program => exact h.of_eq rfl rfl
  | click origin => exact h.dispatch origin
  | once action => exact h.perform action
  | undo => exact h.undo
  | reset => exact h.reset
  | point position => exact h.of_eq rfl rfl
  | calibrate position => exact h.of_eq rfl rfl
  | resize width => exact h.of_eq rfl rfl
  | openDemo => exact h.of_eq rfl rfl
  | closeDemo => exact h.closeDemo
  | startDemo _ _ => exact h.of_eq rfl (Agenda.pick_schedule_of_none _ _ rfl)
  | fire hentries => exact h.fire hentries
  | wait hnone hlast => exact h.of_eq rfl rfl

theorem Stage.IsNew.continued {config : StageConfig} {s : Stage} (h : s.IsNew config) :
    Continued s [] := by
  obtain ⟨-, program, generator, -, rfl⟩ := h
  exact ⟨RunTable.ascending_empty, List.Perm.refl _, nofun, nofun⟩

theorem Reachable.continued {s : Stage} (h : Reachable s) : Continued s [] :=
  h.induction (fun _ _ hnew => hnew.continued) fun _ _ _ _ hs hmove => hmove.continued hs

/-! ## One continuation for each run -/

theorem Timer.isStepOf_iff {timer : Timer} {run : RunId} :
    timer.isStepOf run = true ↔ ∃ index, timer.step? = some (run, index) := by
  cases timer <;> simp [isStepOf, step?]

/-- The entries for the steps of a run, seen through their parameters. -/
theorem Agenda.steps_filter (a : Agenda) (run : RunId) :
    (a.entries.filter (·.timer.isStepOf run)).map (·.timer.step?)
      = (a.steps.filter fun step => decide (step.1 = run)).map some := by
  unfold steps pick
  induction a.entries with
  | nil => rfl
  | cons first rest ih =>
      cases htimer : first.timer.step? with
      | none =>
          have hother : first.timer.isStepOf run = false := by
            simp [← Bool.not_eq_true, Timer.isStepOf_iff, htimer]
          simpa [hother, htimer] using ih
      | some step =>
          by_cases hrun : step.1 = run
          · have hof : first.timer.isStepOf run = true :=
              Timer.isStepOf_iff.2 ⟨step.2, by rw [htimer, ← hrun]⟩
            simpa [hof, htimer, hrun] using ih
          · have hother : first.timer.isStepOf run = false := by
              rw [← Bool.not_eq_true, Timer.isStepOf_iff, htimer]
              rintro ⟨index, heq⟩
              exact hrun (congrArg Prod.fst (Option.some.inj heq))
            simpa [hother, htimer, hrun] using ih

namespace Continued

variable {s : Stage}

/-- The only step that is scheduled for a run is its next one. -/
theorem steps_of_run (h : Continued s []) {r : Run} (hr : r ∈ s.runs.runs) :
    (s.agenda.steps.filter fun step => decide (step.1 = r.id)) = [r.nextStep] := by
  have hruns : s.runs.runs.filter (fun x => decide (x.id = r.id)) = [r] :=
    h.ascending.filter_id hr
  have hperm := h.steps.filter fun step => decide (step.1 = r.id)
  have hnext : (s.runs.runs.map Run.nextStep).filter (fun step => decide (step.1 = r.id))
      = [r.nextStep] := by
    rw [List.filter_map]
    exact congrArg (List.map Run.nextStep) hruns
  rw [hnext] at hperm
  exact List.perm_singleton.1 hperm

theorem mem_steps_iff (h : Continued s []) {step : RunId × Nat} :
    step ∈ s.agenda.steps ↔ ∃ r ∈ s.runs.runs, r.nextStep = step :=
  h.steps.mem_iff.trans List.mem_map

/-- The first steps were made at once, so a run is past the first of them. -/
theorem nextIndex_pos (h : Continued s []) {r : Run} (hr : r ∈ s.runs.runs) : 0 < r.nextIndex :=
  h.later r.nextStep (h.mem_steps_iff.2 ⟨r, hr, rfl⟩)

/-- The one entry that carries a run on. -/
theorem entry_of_run (h : Continued s []) {r : Run} (hr : r ∈ s.runs.runs) :
    ∃ e, s.agenda.entries.filter (·.timer.isStepOf r.id) = [e] ∧
      e.timer = .step r.id r.nextIndex := by
  have hsteps := s.agenda.steps_filter r.id
  rw [h.steps_of_run hr] at hsteps
  obtain ⟨e, hentries, htimer⟩ := List.map_eq_singleton_iff.1 hsteps
  exact ⟨e, hentries, Timer.eq_step_of_step? htimer⟩

theorem isPlaying_iff (h : Continued s []) :
    s.isPlaying = true ↔ ∃ e ∈ s.agenda.entries, e.timer.isStep = true := by
  have hplaying : s.isPlaying = true ↔ ∃ r, r ∈ s.runs.runs := by
    simp [Stage.isPlaying, RunTable.isPlaying, List.eq_nil_iff_forall_not_mem]
  rw [hplaying]
  constructor
  · rintro ⟨r, hr⟩
    obtain ⟨e, he, htimer⟩ := Agenda.mem_pick.1 (h.mem_steps_iff.2 ⟨r, hr, rfl⟩)
    exact ⟨e, he, Timer.isStep_of_step? _ _ htimer⟩
  · rintro ⟨e, he, hstep⟩
    obtain ⟨step, htimer⟩ := Timer.exists_step?_of_isStep hstep
    obtain ⟨r, hr, -⟩ := h.mem_steps_iff.1 (Agenda.mem_pick.2 ⟨e, he, htimer⟩)
    exact ⟨r, hr⟩

end Continued

/-- On every stage that can be reached the runs have different numbers; each of them is at some step
    with one behind it, and the agenda has exactly one step for it, that one; every step in the agenda
    is one of a run on the table. So something runs exactly while some step is scheduled, and nothing
    runs on a settled stage. -/
theorem Reachable.one_continuation {s : Stage} (h : Reachable s) :
    (s.runs.runs.Pairwise fun a b => a.id ≠ b.id) ∧
    (∀ r ∈ s.runs.runs, ∃ i, i + 1 < r.actions.length ∧ r.step = some i ∧
      ∃ e, s.agenda.entries.filter (·.timer.isStepOf r.id) = [e] ∧
        e.timer = .step r.id (i + 1)) ∧
    (∀ e ∈ s.agenda.entries, ∀ run index, e.timer = .step run index →
      ∃ r ∈ s.runs.runs, r.id = run) ∧
    (s.isPlaying = true ↔ ∃ e ∈ s.agenda.entries, e.timer.isStep = true) ∧
    (s.isSettled = true → s.isPlaying = false) := by
  have hs := h.continued
  refine ⟨hs.ascending.sorted.imp Nat.ne_of_lt, ?_, ?_, hs.isPlaying_iff, ?_⟩
  · intro r hr
    have hpos := hs.nextIndex_pos hr
    have hindex : r.nextIndex - 1 + 1 = r.nextIndex := Nat.sub_add_cancel hpos
    refine ⟨r.nextIndex - 1, ?_, Run.step_of_nextIndex_pos hpos, ?_⟩
    · rw [hindex]
      exact hs.short r hr
    · rw [hindex]
      exact hs.entry_of_run hr
  · intro e he run index htimer
    have hstep : (run, index) ∈ s.agenda.steps := Agenda.mem_pick.2 ⟨e, he, by rw [htimer]; rfl⟩
    obtain ⟨r, hr, heq⟩ := hs.mem_steps_iff.1 hstep
    exact ⟨r, hr, congrArg Prod.fst heq⟩
  · -- a step that is scheduled is something that is not a tick of the demo
    intro hsettled
    cases hplaying : s.isPlaying with
    | false => rfl
    | true =>
        obtain ⟨e, he, hstep⟩ := hs.isPlaying_iff.1 hplaying
        have hall : ∀ e ∈ s.agenda.entries, e.timer.isDemoTick = true := by
          simpa [Stage.isSettled, Agenda.any] using hsettled
        exact absurd (hall e he) (by simp [Timer.isDemoTick_of_isStep hstep])

/-- A click on the flag starts a run of two moves: one was made, and one is scheduled. -/
theorem one_continuation_of_two_moves :
    let start := Stage.new ⟨[[.trigger .flagClicked, .move 10, .move 10]], none⟩
    let s := (start.dispatch (.trigger .flagClicked)).1
    Reachable s ∧ s.runs.runs.map Run.nextStep = [(1, 1)] ∧
      ∃ e ∈ s.agenda.entries, e.timer.isStep = true := by
  intro start s
  have hstart : Reachable start := .new (Stage.isNew_new _)
  have hreachable : Reachable s := hstart.handle .flagClicked rfl
  have hplaying : s.isPlaying = true := by decide
  obtain ⟨-, -, -, hiff, -⟩ := hreachable.one_continuation
  exact ⟨hreachable, by decide, hiff.1 hplaying⟩

end SpriteStage

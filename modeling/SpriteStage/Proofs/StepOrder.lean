import SpriteStage.Proofs.Operations
import SpriteStage.Proofs.RunCourse
set_option autoImplicit false

/-! # The order of steps

Runs that are under way at the same time take turns. Before the clock ends, the steps that are made
stand in the order of their instants, and steps at the same instant in the order in which their runs
were started (`Execution.steps_in_order`), so it is always the younger run that writes last.

`InStep` is what makes it so. The steps that were made and those that are scheduled form one row in
that order, and a step that is scheduled comes exactly one interval after one that was made of the
same run. Hence two steps that are scheduled for the same instant follow two that were made at the
same instant, and a new entry, which goes behind those due at the same instant, finds its place.

The first steps of new runs are made at once and not from the agenda. They fit in because between
two operations no step is due now (`UpToDate`). -/

namespace SpriteStage

/-! ## Steps and their order -/

/-- The run of which a step was made. -/
def StageEvent.stepOf? : StageEvent → Option RunId
  | .stepApplied run _ _ => some run
  | _ => none

/-- The run of which a timer makes a step. -/
def Timer.stepOf? : Timer → Option RunId
  | .step run _ => some run
  | _ => none

/-- Whether a step, given as its instant and its run, comes before another one. -/
def StepBefore (a b : Instant × RunId) : Prop := a.1 < b.1 ∨ (a.1 = b.1 ∧ a.2 < b.2)

/-- The steps before the last instant. -/
def beforeLast (steps : List (Instant × RunId)) : List (Instant × RunId) :=
  steps.filter fun x => decide (x.1 < lastInstant)

/-- The steps that were made before the last instant, each with its instant. -/
def stepsMade (log : List TimedEvent) : List (Instant × RunId) :=
  beforeLast (log.filterMap fun e => e.event.stepOf?.map (e.instant, ·))

/-- The steps that are scheduled before the last instant, each with its instant. -/
def Agenda.stepsDue (a : Agenda) : List (Instant × RunId) := beforeLast (a.dues Timer.stepOf?)

theorem stepsMade_append (log log' : List TimedEvent) :
    stepsMade (log ++ log') = stepsMade log ++ stepsMade log' := by
  simp [stepsMade, beforeLast]

theorem stepsMade_stamp (s : Stage) (events : List StageEvent) :
    stepsMade (s.stamp events) = beforeLast ((events.filterMap (·.stepOf?)).map (s.now, ·)) := by
  rw [stepsMade, Stage.stamp, List.filterMap_map, List.map_filterMap]
  rfl

/-- Events that are no steps do not count. -/
theorem stepsMade_append_stamp {log : List TimedEvent} {s : Stage} {events : List StageEvent}
    (hquiet : ∀ event ∈ events, event.stepOf? = none) :
    stepsMade (log ++ s.stamp events) = stepsMade log := by
  rw [stepsMade_append, stepsMade_stamp, List.filterMap_eq_nil_iff.2 hquiet]
  exact List.append_nil _

namespace Agenda

theorem mem_stepsDue {a : Agenda} {x : Instant × RunId} :
    x ∈ a.stepsDue ↔ x ∈ a.dues Timer.stepOf? ∧ x.1 < lastInstant := by
  simp [stepsDue, beforeLast]

theorem stepsDue_cancel_sublist (a : Agenda) (condition : Timer → Bool) :
    (a.cancel condition).stepsDue.Sublist a.stepsDue :=
  (a.dues_cancel_sublist condition).filter _

theorem stepsDue_sublist_of_eq {a b : Agenda} (h : a.stepsDue = b.stepsDue) :
    a.stepsDue.Sublist b.stepsDue :=
  h ▸ List.Sublist.refl _

theorem stepsDue_schedule_of_none (a : Agenda) (due : Instant) {timer : Timer}
    (h : timer.stepOf? = none) : (a.schedule due timer).stepsDue = a.stepsDue := by
  rw [stepsDue, dues_schedule_of_none a due h, stepsDue]

/-- A step that is scheduled goes behind those that are due no later. -/
theorem Ordered.stepsDue_schedule {a : Agenda} (h : a.Ordered) {due : Instant}
    (hlast : due < lastInstant) (run : RunId) (index : Nat) :
    (a.schedule due (.step run index)).stepsDue
      = a.stepsDue.filter (fun x => decide (x.1 ≤ due))
        ++ (due, run) :: a.stepsDue.filter fun x => decide (due < x.1) := by
  have hdues : (a.schedule due (.step run index)).dues Timer.stepOf?
      = (a.dues Timer.stepOf?).filter (fun x => decide (x.1 ≤ due))
        ++ (due, run) :: (a.dues Timer.stepOf?).filter fun x => decide (due < x.1) :=
    h.dues_schedule due rfl
  simp only [stepsDue, beforeLast, hdues, List.filter_append, List.filter_cons, hlast, decide_true,
    ↓reduceIte, List.filter_filter, Bool.and_comm]

/-- A step that is scheduled for the last instant does not count. -/
theorem Ordered.stepsDue_schedule_last {a : Agenda} (h : a.Ordered) {due : Instant}
    (hlast : lastInstant ≤ due) (run : RunId) (index : Nat) :
    (a.schedule due (.step run index)).stepsDue = a.stepsDue := by
  have hdues : (a.schedule due (.step run index)).dues Timer.stepOf?
      = (a.dues Timer.stepOf?).filter (fun x => decide (x.1 ≤ due))
        ++ (due, run) :: (a.dues Timer.stepOf?).filter fun x => decide (due < x.1) :=
    h.dues_schedule due rfl
  have hlater : ((a.dues Timer.stepOf?).filter fun x =>
      decide (x.1 < lastInstant) && decide (due < x.1)) = [] := by
    refine List.filter_eq_nil_iff.2 fun x _ => ?_
    simp only [Bool.and_eq_true, decide_eq_true_eq]
    lia
  rw [stepsDue, beforeLast, hdues, List.filter_append,
    List.filter_cons_of_neg (by simpa using hlast), List.filter_filter, List.filter_filter, hlater,
    List.append_nil]
  refine List.filter_congr fun x _ => ?_
  rw [Bool.and_eq_left_iff_imp, decide_eq_true_eq, decide_eq_true_eq]
  lia

end Agenda

/-- An action schedules no step. -/
theorem Stage.dues_stepOf?_perform (s : Stage) (action : Action) :
    (s.perform action).agenda.dues Timer.stepOf? = s.agenda.dues Timer.stepOf? :=
  s.dues_perform action fun _ _ => rfl

theorem Stage.stepsDue_perform (s : Stage) (action : Action) :
    (s.perform action).agenda.stepsDue = s.agenda.stepsDue :=
  congrArg beforeLast (s.dues_stepOf?_perform action)

/-! ## The invariant -/

/-- The steps that were made and those that are scheduled stand in one row. -/
structure InStep (s : Stage) (log : List TimedEvent) : Prop where
  timely : Timely s
  interval_pos : 0 < s.config.stepIntervalMs
  row : (stepsMade log ++ s.agenda.stepsDue).Pairwise StepBefore
  /-- A step that is scheduled comes one interval after one that was made. -/
  preceded : ∀ x ∈ s.agenda.stepsDue, ∃ made ∈ stepsMade log,
    made.2 = x.2 ∧ x.1 = made.1 + s.config.stepIntervalMs
  past : ∀ x ∈ stepsMade log, x.1 ≤ s.now
  known : ∀ x ∈ stepsMade log, x.2 ≤ s.runs.lastId

/-- No step is due now. -/
def UpToDate (s : Stage) : Prop := ∀ x ∈ s.agenda.stepsDue, s.now < x.1

namespace InStep

variable {s s' : Stage} {log : List TimedEvent} {run : RunId} {index : Nat}

theorem le_of_mem_stepsDue (h : InStep s log) {x : Instant × RunId} (hx : x ∈ s.agenda.stepsDue) :
    s.now ≤ x.1 := by
  obtain ⟨e, he, hdue, -⟩ := Agenda.mem_dues.1 (Agenda.mem_stepsDue.1 hx).1
  exact hdue ▸ (h.timely.due e he).1

/-- What neither makes nor schedules a step. -/
theorem frame (h : InStep s log) {events : List StageEvent} (htimely : Timely s')
    (hconfig : s'.config = s.config) (hdue : s'.agenda.stepsDue.Sublist s.agenda.stepsDue)
    (hnow : s.now ≤ s'.now) (hlastId : s.runs.lastId ≤ s'.runs.lastId)
    (hquiet : ∀ event ∈ events, event.stepOf? = none) :
    InStep s' (log ++ s'.stamp events) := by
  have hmade : stepsMade (log ++ s'.stamp events) = stepsMade log := stepsMade_append_stamp hquiet
  refine ⟨htimely, hconfig ▸ h.interval_pos, ?_, ?_, ?_, ?_⟩
  · rw [hmade]
    exact h.row.sublist (hdue.append_left _)
  · rw [hmade, hconfig]
    exact fun x hx => h.preceded x (hdue.subset hx)
  · rw [hmade]
    exact fun x hx => Nat.le_trans (h.past x hx) hnow
  · rw [hmade]
    exact fun x hx => Nat.le_trans (h.known x hx) hlastId

/-! ## Steps -/

section Step

/-- The next step of a run that makes a step now goes among those that are scheduled. -/
theorem schedule_next (h : InStep s log) (hlate : ∀ x ∈ stepsMade log, StepBefore x (s.now, run))
    (index : Nat) {due : Instant} (hdue : due = after s.now s.config.stepIntervalMs) :
    (s.agenda.schedule due (.step run index)).stepsDue.Pairwise StepBefore ∧
      ∀ x ∈ (s.agenda.schedule due (.step run index)).stepsDue,
        x ∈ s.agenda.stepsDue ∨ x = (s.now + s.config.stepIntervalMs, run) := by
  have hscheduled := (List.pairwise_append.1 h.row).2.1
  have hordered := h.timely.ordered
  rcases Nat.lt_or_ge due lastInstant with hlast | hlast
  · have hsum : due = s.now + s.config.stepIntervalMs := by
      unfold after at hdue
      lia
    -- those scheduled for the same instant follow a step that was made now, of an older run
    have hsame : ∀ x ∈ s.agenda.stepsDue, x.1 ≤ due → StepBefore x (due, run) := by
      intro x hx hle
      rcases Nat.lt_or_eq_of_le hle with hlt | heq
      · exact Or.inl hlt
      · obtain ⟨made, hmem, hrun, hinstant⟩ := h.preceded x hx
        rcases hlate made hmem with hbefore | ⟨-, hyounger⟩
        · dsimp only at hbefore
          lia
        · exact Or.inr ⟨heq, hrun ▸ hyounger⟩
    rw [hordered.stepsDue_schedule hlast]
    refine ⟨List.pairwise_append.2 ⟨hscheduled.filter _, List.pairwise_cons.2 ⟨?_, ?_⟩, ?_⟩, ?_⟩
    · exact fun x hx => Or.inl (of_decide_eq_true (List.mem_filter.1 hx).2)
    · exact hscheduled.filter _
    · intro x hx y hy
      obtain ⟨hxmem, hxle⟩ := List.mem_filter.1 hx
      rcases List.mem_cons.1 hy with rfl | hy
      · exact hsame x hxmem (of_decide_eq_true hxle)
      · have hylt := of_decide_eq_true (List.mem_filter.1 hy).2
        exact Or.inl (Nat.lt_of_le_of_lt (of_decide_eq_true hxle) hylt)
    · intro x hx
      rcases List.mem_append.1 hx with hx | hx
      · exact Or.inl (List.mem_filter.1 hx).1
      · rcases List.mem_cons.1 hx with rfl | hx
        · exact Or.inr (by rw [hsum])
        · exact Or.inl (List.mem_filter.1 hx).1
  · rw [hordered.stepsDue_schedule_last hlast]
    exact ⟨hscheduled, fun x hx => Or.inl hx⟩

/-- A step of a run is made now, behind all that were made and before all that are scheduled. -/
theorem ofStep (h : InStep s log) (hlate : ∀ x ∈ stepsMade log, StepBefore x (s.now, run))
    (hearly : ∀ x ∈ s.agenda.stepsDue, StepBefore (s.now, run) x)
    (hknown : s.now < lastInstant → run ≤ s.runs.lastId) {events : List StageEvent}
    (hevents : events.filterMap (·.stepOf?) = [run]) (htimely : Timely s')
    (hconfig : s'.config = s.config) (hnow : s'.now = s.now)
    (hlastId : s'.runs.lastId = s.runs.lastId)
    (hsorted : s'.agenda.stepsDue.Pairwise StepBefore)
    (hnext : ∀ x ∈ s'.agenda.stepsDue,
      x ∈ s.agenda.stepsDue ∨ x = (s.now + s.config.stepIntervalMs, run)) :
    InStep s' (log ++ s.stamp events) := by
  have hpos := h.interval_pos
  obtain ⟨hmade, -, hacross⟩ := List.pairwise_append.1 h.row
  have hstamp : stepsMade (log ++ s.stamp events)
      = stepsMade log ++ beforeLast [(s.now, run)] := by
    rw [stepsMade_append, stepsMade_stamp, hevents]
    rfl
  have hnew : ∀ x ∈ beforeLast [(s.now, run)], x = (s.now, run) := fun x hx =>
    List.mem_singleton.1 (List.mem_filter.1 hx).1
  refine ⟨htimely, hconfig ▸ hpos, ?_, ?_, ?_, ?_⟩
  · rw [hstamp]
    refine List.pairwise_append.2 ⟨?_, hsorted, fun x hx y hy => ?_⟩
    · refine List.pairwise_append.2 ⟨hmade, ?_, fun x hx y hy => ?_⟩
      · exact (List.pairwise_singleton _ _).filter _
      · rw [hnew y hy]
        exact hlate x hx
    · rcases List.mem_append.1 hx with hx | hx
      · rcases hnext y hy with hy | rfl
        · exact hacross x hx y hy
        · exact Or.inl (Nat.lt_of_le_of_lt (h.past x hx) (by dsimp only; lia))
      · rw [hnew x hx]
        rcases hnext y hy with hy | rfl
        · exact hearly y hy
        · exact Or.inl (by dsimp only; lia)
  · intro x hx
    rw [hstamp, hconfig]
    rcases hnext x hx with hold | rfl
    · obtain ⟨made, hmem, hrun⟩ := h.preceded x hold
      exact ⟨made, List.mem_append_left _ hmem, hrun⟩
    · have hlast := (Agenda.mem_stepsDue.1 hx).2
      refine ⟨(s.now, run), List.mem_append_right _ ?_, rfl, rfl⟩
      exact List.mem_filter.2 ⟨List.mem_singleton_self _, by dsimp only at hlast; simp; lia⟩
  · intro x hx
    rw [hstamp] at hx
    rw [hnow]
    rcases List.mem_append.1 hx with hx | hx
    · exact h.past x hx
    · exact Nat.le_of_eq (by rw [hnew x hx])
  · intro x hx
    rw [hstamp] at hx
    rw [hlastId]
    rcases List.mem_append.1 hx with hx | hx
    · exact h.known x hx
    · have hlast := of_decide_eq_true (List.mem_filter.1 hx).2
      rw [hnew x hx] at hlast ⊢
      exact hknown hlast

theorem runStep (h : InStep s log) (hlate : ∀ x ∈ stepsMade log, StepBefore x (s.now, run))
    (hearly : ∀ x ∈ s.agenda.stepsDue, StepBefore (s.now, run) x)
    (hknown : s.now < lastInstant → run ≤ s.runs.lastId) (index : Nat) :
    InStep (s.runStep run index).1 (log ++ s.stamp (s.runStep run index).2) := by
  have htimely := h.timely.runStep run index
  rcases s.runStep_cases run index with ⟨heq, -⟩ | ⟨r, hi, -, ⟨-, heq⟩ | ⟨-, heq⟩⟩
  · rw [heq]
    simpa [Stage.stamp] using h
  · -- the next step goes into the agenda that the action has left
    have hperformed : InStep (s.perform r.actions[index])
        (log ++ (s.perform r.actions[index]).stamp []) :=
      h.frame (h.timely.perform _) (by simp)
        (Agenda.stepsDue_sublist_of_eq (s.stepsDue_perform r.actions[index])) (by simp) (by simp)
        fun _ he => absurd he List.not_mem_nil
    simp only [Stage.stamp, List.map_nil, List.append_nil] at hperformed
    have hlate' : ∀ x ∈ stepsMade log, StepBefore x ((s.perform r.actions[index]).now, run) := by
      rw [Stage.perform_now]
      exact hlate
    have hnext := hperformed.schedule_next hlate' (index + 1) rfl
    rw [Stage.stepsDue_perform, Stage.perform_now, Stage.perform_config] at hnext
    rw [heq] at htimely ⊢
    refine h.ofStep hlate hearly hknown rfl htimely ?_ ?_ ?_ ?_ ?_
    · simp [Stage.scheduleAfter]
    · simp [Stage.scheduleAfter]
    · rfl
    · simpa [Stage.scheduleAfter] using hnext.1
    · simpa [Stage.scheduleAfter] using hnext.2
  · rw [heq] at htimely ⊢
    refine h.ofStep hlate hearly hknown rfl htimely ?_ ?_ ?_ ?_ ?_
    · simp
    · simp
    · rfl
    · rw [Stage.stepsDue_perform]
      exact (List.pairwise_append.1 h.row).2.1
    · rw [Stage.stepsDue_perform]
      exact fun x hx => Or.inl hx

end Step

end InStep

/-! ## Starting runs -/

namespace Stage

section Frame

variable (s : Stage) (run : RunId) (index : Nat)

@[simp] theorem runStep_lastId : (s.runStep run index).1.runs.lastId = s.runs.lastId := by
  rcases s.runStep_cases run index with ⟨h, -⟩ | ⟨r, hi, -, ⟨-, h⟩ | ⟨-, h⟩⟩ <;> rw [h] <;> rfl

/-- A step is a step of its run. -/
theorem stepOf?_runStep {event : StageEvent} (h : event ∈ (s.runStep run index).2) {id : RunId}
    (hid : event.stepOf? = some id) : id = run := by
  rcases s.runStep_cases run index with ⟨heq, -⟩ | ⟨r, hi, -, ⟨-, heq⟩ | ⟨-, heq⟩⟩ <;>
    rw [heq] at h <;> simp at h
  · subst h
    exact (Option.some.inj hid).symm
  · rcases h with rfl | rfl
    · exact (Option.some.inj hid).symm
    · cases hid

/-- The next step is due later. -/
theorem lt_of_mem_stepsDue_runStep (hpos : 0 < s.config.stepIntervalMs) {x : Instant × RunId}
    (hx : x ∈ (s.runStep run index).1.agenda.stepsDue) : x ∈ s.agenda.stepsDue ∨ s.now < x.1 := by
  rw [Agenda.mem_stepsDue] at hx ⊢
  rcases s.runStep_cases run index with ⟨heq, -⟩ | ⟨r, hi, -, ⟨-, heq⟩ | ⟨-, heq⟩⟩ <;>
    rw [heq] at hx
  · exact Or.inl hx
  · obtain ⟨e, he, hdue, htimer⟩ := Agenda.mem_dues.1 hx.1
    rcases Agenda.mem_schedule.1 he with rfl | he
    · dsimp only at hdue
      rw [perform_now] at hdue
      unfold after at hdue
      refine Or.inr ?_
      have hlast := hx.2
      lia
    · refine Or.inl ⟨?_, hx.2⟩
      rw [← s.dues_stepOf?_perform r.actions[index]]
      exact Agenda.mem_dues.2 ⟨e, he, hdue, htimer⟩
  · dsimp only at hx
    rw [dues_stepOf?_perform] at hx
    exact Or.inl hx

end Frame

/-- New runs have the numbers after the last one, in the order in which they are started. -/
theorem startRuns_ids (s : Stage) (origin : RunOrigin) (runs : List (List Action)) :
    s.runs.lastId ≤ (s.startRuns origin runs).1.runs.lastId ∧
      (s.startRuns origin runs).2.1.Pairwise (· < ·) ∧
      ∀ id ∈ (s.startRuns origin runs).2.1,
        s.runs.lastId < id ∧ id ≤ (s.startRuns origin runs).1.runs.lastId := by
  induction runs generalizing s with
  | nil => exact ⟨Nat.le_refl _, List.Pairwise.nil, nofun⟩
  | cons actions rest ih =>
      obtain ⟨hlast, hsorted, hids⟩ := ih (s.startRun origin actions)
      have hnext : (s.startRun origin actions).runs.lastId = s.runs.lastId + 1 := rfl
      rw [hnext] at hlast hids
      rw [startRuns_cons]
      have hnew : ∀ id ∈ ((s.startRun origin actions).startRuns origin rest).2.1,
          s.runs.lastId + 1 < id := fun id hid => (hids id hid).1
      refine ⟨Nat.le_of_succ_le hlast, List.pairwise_cons.2 ⟨hnew, hsorted⟩, ?_⟩
      intro id hid
      rcases List.mem_cons.1 hid with rfl | hid
      · exact ⟨Nat.lt_succ_self _, hlast⟩
      · exact ⟨Nat.lt_of_succ_lt (hids id hid).1, (hids id hid).2⟩

theorem stepOf?_startRuns (s : Stage) (origin : RunOrigin) (runs : List (List Action)) :
    ∀ event ∈ (s.startRuns origin runs).2.2, event.stepOf? = none := by
  induction runs generalizing s with
  | nil => exact nofun
  | cons actions rest ih =>
      rw [startRuns_cons]
      intro event hevent
      rcases List.mem_cons.1 hevent with rfl | hevent
      · rfl
      · exact ih _ event hevent

end Stage

/-! ## Moves -/

namespace InStep

variable {s s' : Stage} {log : List TimedEvent}

/-- First steps come behind all that were made, in the order of their runs. -/
theorem firstSteps (h : InStep s log) (hready : UpToDate s) {ids : List RunId}
    (hsorted : ids.Pairwise (· < ·)) (hknown : ∀ id ∈ ids, id ≤ s.runs.lastId)
    (hnew : ∀ id ∈ ids, ∀ x ∈ stepsMade log, x.2 < id) :
    InStep (s.firstSteps ids).1 (log ++ s.stamp (s.firstSteps ids).2) ∧
      UpToDate (s.firstSteps ids).1 := by
  induction ids generalizing s log with
  | nil => exact ⟨by simpa [Stage.firstSteps, Stage.stamp] using h, hready⟩
  | cons run rest ih =>
      obtain ⟨hfirst, hrest⟩ := List.pairwise_cons.1 hsorted
      have hstep : InStep (s.runStep run 0).1 (log ++ s.stamp (s.runStep run 0).2) := by
        refine h.runStep ?_ ?_ (fun _ => hknown run List.mem_cons_self) 0
        · intro x hx
          have hyounger := hnew run List.mem_cons_self x hx
          exact (Nat.lt_or_eq_of_le (h.past x hx)).imp_right fun heq => ⟨heq, hyounger⟩
        · exact fun x hx => Or.inl (hready x hx)
      have hreadyStep : UpToDate (s.runStep run 0).1 := by
        intro x hx
        rw [Stage.runStep_now]
        exact (s.lt_of_mem_stepsDue_runStep run 0 h.interval_pos hx).elim (hready x) id
      have hnewStep : ∀ id ∈ rest, ∀ x ∈ stepsMade (log ++ s.stamp (s.runStep run 0).2),
          x.2 < id := by
        intro id hid x hx
        rw [stepsMade_append, stepsMade_stamp] at hx
        rcases List.mem_append.1 hx with hx | hx
        · exact hnew id (List.mem_cons_of_mem _ hid) x hx
        · obtain ⟨run', hrun, rfl⟩ := List.mem_map.1 (List.mem_filter.1 hx).1
          obtain ⟨event, hevent, hof⟩ := List.mem_filterMap.1 hrun
          rw [s.stepOf?_runStep run 0 hevent hof]
          exact hfirst id hid
      have hall := ih hstep hreadyStep hrest
        (fun id hid => by
          rw [Stage.runStep_lastId]
          exact hknown id (List.mem_cons_of_mem _ hid))
        hnewStep
      rw [Stage.stamp_congr (s.runStep_now run 0), List.append_assoc, ← Stage.stamp_append] at hall
      exact hall

theorem dispatch (h : InStep s log) (hready : UpToDate s) (origin : RunOrigin) :
    InStep (s.dispatch origin).1 (log ++ s.stamp (s.dispatch origin).2) ∧
      UpToDate (s.dispatch origin).1 := by
  cases hplan : s.program.plan origin s.isPlaying with
  | ignore reason =>
      rw [Stage.dispatch_of_ignore hplan]
      refine ⟨h.frame h.timely rfl (List.Sublist.refl _) (Nat.le_refl _) (Nat.le_refl _) ?_, hready⟩
      simp [StageEvent.stepOf?]
  | start runs =>
      -- the table of runs grows, and nothing else changes before the first steps
      obtain ⟨hlast, hsorted, hids⟩ :=
        ({ s with history := s.history.push (.capture s.sprite) } : Stage).startRuns_ids origin runs
      have hall := s.startAll_eq origin runs
      have hquiet : ∀ event ∈ (.historyPushed (s.history.push (.capture s.sprite)).depth
          :: (s.startAll origin runs).2.2 : List StageEvent), event.stepOf? = none := by
        intro event hevent
        rcases List.mem_cons.1 hevent with rfl | hevent
        · rfl
        · exact Stage.stepOf?_startRuns _ origin runs event hevent
      have hstarted : InStep (s.startAll origin runs).1
          (log ++ (s.startAll origin runs).1.stamp
            (.historyPushed (s.history.push (.capture s.sprite)).depth
              :: (s.startAll origin runs).2.2)) := by
        refine h.frame ?_ (by rw [hall]) (Agenda.stepsDue_sublist_of_eq (by rw [hall]))
          (Nat.le_of_eq (by rw [hall])) hlast hquiet
        exact h.timely.of_eq (by rw [hall]) (by rw [hall])
      have hready' : UpToDate (s.startAll origin runs).1 := by
        rw [hall]
        exact hready
      have hnow : (s.startAll origin runs).1.now = s.now := by rw [hall]
      have hsteps := hstarted.firstSteps hready' hsorted (fun id hid => (hids id hid).2) <| by
        intro id hid x hx
        rw [stepsMade_append_stamp hquiet] at hx
        exact Nat.lt_of_le_of_lt (h.known x hx) (hids id hid).1
      rw [Stage.dispatch_of_start hplan, Stage.stamp_append, ← List.append_assoc,
        ← Stage.stamp_congr hnow, ← Stage.stamp_congr hnow]
      exact hsteps

theorem stepsDue_arrive_sublist {entry : Appointment} {rest : List Appointment}
    (hentries : s.agenda.entries = entry :: rest) :
    (s.arrive entry rest).agenda.stepsDue.Sublist s.agenda.stepsDue := by
  refine List.Sublist.filter _ ?_
  rw [Agenda.dues, Agenda.dues, hentries]
  exact (List.sublist_cons_self entry rest).filterMap _

/-- The first entry of the agenda fires. If it is a step it comes next in the row. -/
theorem fire (h : InStep s log) {entry : Appointment} {rest : List Appointment}
    (hentries : s.agenda.entries = entry :: rest) :
    InStep ((s.arrive entry rest).fire entry.timer).1
      (log ++ ((s.arrive entry rest).fire entry.timer).1.stamp
        ((s.arrive entry rest).fire entry.timer).2) := by
  have htimely := h.timely.arrive hentries
  have hnow := h.timely.now_arrive hentries
  have harrive : InStep (s.arrive entry rest) (log ++ (s.arrive entry rest).stamp []) :=
    h.frame htimely rfl (stepsDue_arrive_sublist hentries) (Nat.le_max_left _ _) (Nat.le_refl _)
      fun _ he => absurd he List.not_mem_nil
  simp only [Stage.stamp, List.map_nil, List.append_nil] at harrive
  cases htimer : entry.timer with
  | step run index =>
      rw [Stage.stamp_congr (Stage.fire_now _ _)]
      have hcons : s.agenda.dues Timer.stepOf?
          = (entry.due, run) :: (s.arrive entry rest).agenda.dues Timer.stepOf? :=
        Agenda.dues_cons_of_some hentries (by rw [htimer]; rfl)
      rcases Nat.lt_or_ge entry.due lastInstant with hlast | hlast
      · have hfirst : s.agenda.stepsDue
            = (entry.due, run) :: (s.arrive entry rest).agenda.stepsDue := by
          rw [Agenda.stepsDue, hcons, beforeLast, List.filter_cons_of_pos (by simpa using hlast)]
          rfl
        obtain ⟨-, hscheduled, hacross⟩ := List.pairwise_append.1 h.row
        rw [hfirst] at hscheduled hacross
        refine harrive.runStep ?_ ?_ (fun _ => ?_) index
        · rw [hnow]
          exact fun x hx => hacross x hx _ List.mem_cons_self
        · rw [hnow]
          exact (List.pairwise_cons.1 hscheduled).1
        · obtain ⟨made, hmade, hrun, -⟩ := h.preceded (entry.due, run) (hfirst ▸ List.mem_cons_self)
          have hle := h.known made hmade
          rwa [hrun] at hle
      · -- at the last instant no step counts any more
        refine harrive.runStep ?_ ?_ (fun hbefore => ?_) index
        · intro x hx
          rw [hnow]
          exact Or.inl (Nat.lt_of_lt_of_le (of_decide_eq_true (List.mem_filter.1 hx).2) hlast)
        · intro x hx
          have hdue := harrive.le_of_mem_stepsDue hx
          rw [hnow] at hdue
          exact absurd (Agenda.mem_stepsDue.1 hx).2 (Nat.not_lt.2 (Nat.le_trans hlast hdue))
        · rw [hnow] at hbefore
          exact absurd hbefore (Nat.not_lt.2 hlast)
  | clear cell version =>
      have hfired := htimely.fire (.clear cell version)
      rcases (s.arrive entry rest).fireClear_cases cell version with heq | heq <;>
        simp only [Stage.fire, heq] at hfired ⊢ <;>
        refine harrive.frame hfired rfl (List.Sublist.refl _) (Nat.le_refl _) (Nat.le_refl _) ?_ <;>
        simp [StageEvent.stepOf?]
  | demoTick session =>
      have hfired := htimely.fire (.demoTick session)
      rcases (s.arrive entry rest).fireDemoTick_cases session with ⟨-, heq⟩ | ⟨-, -, heq⟩ <;>
        simp only [Stage.fire, heq] at hfired ⊢
      · exact harrive.frame hfired rfl (List.Sublist.refl _) (Nat.le_refl _) (Nat.le_refl _)
          fun _ he => absurd he List.not_mem_nil
      · exact harrive.frame hfired rfl
          (Agenda.stepsDue_sublist_of_eq (Agenda.stepsDue_schedule_of_none _ _ rfl))
          (Nat.le_refl _) (Nat.le_refl _) (by simp [StageEvent.stepOf?])

/-- What is scheduled when an entry fires was scheduled before or is due later. -/
theorem lt_of_mem_stepsDue_fire (h : InStep s log) {entry : Appointment} {rest : List Appointment}
    (hentries : s.agenda.entries = entry :: rest) {x : Instant × RunId}
    (hx : x ∈ ((s.arrive entry rest).fire entry.timer).1.agenda.stepsDue) :
    x ∈ s.agenda.stepsDue ∨ ((s.arrive entry rest).fire entry.timer).1.now < x.1 := by
  have hrest := (stepsDue_arrive_sublist hentries).subset
  rw [Stage.fire_now]
  cases htimer : entry.timer with
  | step run index =>
      rw [htimer] at hx
      exact ((s.arrive entry rest).lt_of_mem_stepsDue_runStep run index h.interval_pos hx).imp_left
        fun hx => hrest hx
  | clear cell version =>
      rw [htimer] at hx
      rcases (s.arrive entry rest).fireClear_cases cell version with heq | heq <;>
        simp only [Stage.fire, heq] at hx <;> exact Or.inl (hrest hx)
  | demoTick session =>
      rw [htimer] at hx
      rcases (s.arrive entry rest).fireDemoTick_cases session with ⟨-, heq⟩ | ⟨-, -, heq⟩ <;>
        simp only [Stage.fire, heq] at hx
      · exact Or.inl (hrest hx)
      · rw [Stage.demoTick, Stage.scheduleAfter, Agenda.stepsDue_schedule_of_none _ _ rfl] at hx
        exact Or.inl (hrest hx)

end InStep

/-- A move that does not touch the clock keeps the row and leaves no step that is due now. -/
theorem Stage.Moves.inStep {s s' : Stage} {events : List StageEvent} {started : List Announcement}
    {log : List TimedEvent} (m : Moves s events started s') (h : InStep s log)
    (hready : UpToDate s) (hnow : s'.now = s.now) :
    InStep s' (log ++ s'.stamp events) ∧ UpToDate s' := by
  have htimely := m.timely h.timely
  have hconfig := m.config_eq
  -- most moves make no step and schedule none
  have hquiet : s'.agenda.stepsDue.Sublist s.agenda.stepsDue →
      s.runs.lastId ≤ s'.runs.lastId → (∀ event ∈ events, event.stepOf? = none) →
      InStep s' (log ++ s'.stamp events) ∧ UpToDate s' := by
    intro hdue hlastId hevents
    refine ⟨h.frame htimely hconfig hdue (Nat.le_of_eq hnow.symm) hlastId hevents, fun x hx => ?_⟩
    rw [hnow]
    exact hready x (hdue.subset hx)
  have hcancelled : ∀ event ∈ s.cancelRuns.2, event.stepOf? = none := by
    intro event hevent
    obtain ⟨r, -, rfl⟩ := List.mem_map.1 hevent
    rfl
  cases m with
  | click origin =>
      rw [Stage.stamp_congr (s.dispatch_now origin)]
      exact h.dispatch hready origin
  | once action =>
      exact hquiet (Agenda.stepsDue_sublist_of_eq (s.stepsDue_perform action)) (by simp)
        (by simp [StageEvent.stepOf?])
  | undo =>
      rcases s.undo_cases with ⟨-, heq⟩ | ⟨newest, rest, -, heq⟩
      · rw [heq] at hquiet ⊢
        exact hquiet (List.Sublist.refl _) (Nat.le_refl _) nofun
      · have hbefore : s.beforeUndo.1.agenda.stepsDue.Sublist s.agenda.stepsDue ∧
            s.beforeUndo.1.runs.lastId = s.runs.lastId ∧
            ∀ event ∈ s.beforeUndo.2, event.stepOf? = none := by
          unfold beforeUndo
          split
          · exact ⟨s.agenda.stepsDue_cancel_sublist _, rfl, hcancelled⟩
          · exact ⟨List.Sublist.refl _, rfl, nofun⟩
        rw [heq] at hquiet ⊢
        refine hquiet hbefore.1 (Nat.le_of_eq hbefore.2.1.symm) fun event hevent => ?_
        rcases List.mem_append.1 hevent with hevent | hevent
        · exact hbefore.2.2 event hevent
        · rw [List.mem_singleton.1 hevent]
          rfl
  | reset =>
      have hsteps : s.cancelRuns.1.agenda.stepsDue.Sublist s.agenda.stepsDue :=
        s.agenda.stepsDue_cancel_sublist _
      refine hquiet ?_ (Nat.le_refl _) fun event hevent => ?_
      · rcases s.reset_agenda with hagenda | hagenda
        · rw [hagenda]
          exact (Agenda.stepsDue_cancel_sublist _ _).trans hsteps
        · rw [hagenda]
          exact hsteps
      · rcases List.mem_append.1 hevent with hevent | hevent
        · exact hcancelled event hevent
        · rw [List.mem_singleton.1 hevent]
          rfl
  | closeDemo =>
      refine hquiet ?_ (Nat.le_refl _) (by simp [StageEvent.stepOf?])
      rcases s.closeDemo_agenda with hagenda | hagenda
      · rw [hagenda]
        exact s.agenda.stepsDue_cancel_sublist _
      · exact Agenda.stepsDue_sublist_of_eq (congrArg Agenda.stepsDue hagenda)
  | startDemo _ _ =>
      exact hquiet (Agenda.stepsDue_sublist_of_eq (Agenda.stepsDue_schedule_of_none _ _ rfl))
        (Nat.le_refl _) (by simp [StageEvent.stepOf?])
  | @fire entry rest hentries =>
      refine ⟨h.fire hentries, fun x hx => ?_⟩
      rcases h.lt_of_mem_stepsDue_fire hentries hx with hx | hlater
      · rw [hnow]
        exact hready x hx
      · exact hlater
  | nothing | replace _ | point _ | calibrate _ | resize _ | openDemo | wait _ _ =>
      exact hquiet (List.Sublist.refl _) (Nat.le_refl _) (by simp [StageEvent.stepOf?])

/-! ## While time passes -/

/-- Advancing keeps the row, and when nothing is due any more no step is due now. -/
theorem InStep.advance {s s' : Stage} {target : Instant} {log events : List TimedEvent}
    (h : InStep s log) (hready : UpToDate s)
    (hadvance : s.advanceTimed? target = some (s', events)) :
    InStep s' (log ++ events) ∧ UpToDate s' := by
  obtain ⟨mid, ⟨hmid, hreadyMid⟩, hnone, rfl⟩ := Stage.advanceTimed?_induction
    (P := fun s log => InStep s log ∧ (s.now ≤ min target lastInstant ∨ UpToDate s))
    (fun {s log entry rest} hentries hdue ⟨hs, _⟩ => by
      refine ⟨hs.fire hentries, Or.inl ?_⟩
      rw [Stage.fire_now, hs.timely.now_arrive hentries]
      exact hdue)
    log hadvance ⟨h, Or.inr hready⟩
  have htimely := hmid.timely.waitUntil hnone (Nat.min_le_right _ _)
  have hwaited : InStep (mid.waitUntil (min target lastInstant)) ((log ++ events) ++
      (mid.waitUntil (min target lastInstant)).stamp []) :=
    hmid.frame htimely rfl (List.Sublist.refl _) (Nat.le_max_left _ _) (Nat.le_refl _)
      fun _ he => absurd he List.not_mem_nil
  refine ⟨by simpa [Stage.stamp] using hwaited, fun x hx => ?_⟩
  -- what is left is due after the target, and after the clock, too
  obtain ⟨e, he, hdue, -⟩ := Agenda.mem_dues.1 (Agenda.mem_stepsDue.1 hx).1
  have htarget : min target lastInstant < x.1 := hdue ▸ hmid.timely.lt_due hnone e he
  refine Nat.max_lt.2 ⟨?_, htarget⟩
  rcases hreadyMid with hle | hready
  · exact Nat.lt_of_le_of_lt hle htarget
  · exact hready x hx

theorem StageConfig.stepIntervalMs_pos {config : StageConfig} (h : config.fault? = none) :
    0 < config.stepIntervalMs := by
  rw [Nat.pos_iff_ne_zero]
  intro hzero
  unfold fault? at h
  rw [if_pos hzero] at h
  cases h

theorem Stage.IsNew.inStep {config : StageConfig} {s : Stage} (h : s.IsNew config) :
    InStep s [] ∧ UpToDate s := by
  have htimely := h.timely
  obtain ⟨hfault, program, generator, -, rfl⟩ := h
  exact ⟨⟨htimely, config.stepIntervalMs_pos hfault, List.Pairwise.nil, nofun, nofun, nofun⟩, nofun⟩

theorem Execution.inStep {config : StageConfig} {s : Stage} {log : List TimedEvent}
    {plans : List Announcement} (h : Execution config s log plans) : InStep s log ∧ UpToDate s :=
  h.induction_of_readings (P := fun s log => InStep s log ∧ UpToDate s)
    (fun _ hnew => hnew.inStep)
    (fun _ _ _ _ _ hs hmove hnow => hmove.inStep hs.1 hs.2 hnow)
    fun hs hadvance => hs.1.advance hs.2 hadvance

/-- In every execution the steps that are made before the clock ends stand in the order of their
    instants, and those made at the same instant in the order of their runs. The numbers of the runs
    follow the order in which they are started, so of two runs that make a step at the same instant
    it is the one started first that makes it first. -/
theorem Execution.steps_in_order {config : StageConfig} {s : Stage} {log : List TimedEvent}
    {plans : List Announcement} (h : Execution config s log plans) :
    (stepsMade log).Pairwise StepBefore ∧
    log.filter (·.event.startsRun) = plans.map Announcement.startEvent ∧
    (plans.map (·.run)).Pairwise (· < ·) :=
  ⟨(List.pairwise_append.1 h.inStep.1.row).1, h.told.started, h.told.ascending⟩

/-- Two runs that are started with one click take turns. -/
theorem steps_of_two_runs :
    let start := Stage.new ⟨[[.trigger .flagClicked, .move 10, .move 10],
      [.trigger .flagClicked, .move 5, .move 5]], none⟩
    let clicked := start.dispatch (.trigger .flagClicked)
    ∃ later plans, clicked.1.advanceTimed? 10 = some later ∧
      Execution {} later.1 (clicked.1.stamp clicked.2 ++ later.2) plans ∧
      stepsMade (clicked.1.stamp clicked.2 ++ later.2) = [(0, 1), (0, 2), (10, 1), (10, 2)] ∧
      (stepsMade (clicked.1.stamp clicked.2 ++ later.2)).Pairwise StepBefore := by
  intro start clicked
  have hclick : start.operateTimed? (.input .flagClicked)
      = some (Stage.accepted (Stage.stamped clicked)) := rfl
  have hexecution : Execution {} clicked.1 (clicked.1.stamp clicked.2) _ :=
    .operate (.new (Stage.isNew_new _)) hclick
  have hsteps : (clicked.1.advanceTimed? 10).map
      (fun later => stepsMade (clicked.1.stamp clicked.2 ++ later.2))
        = some [(0, 1), (0, 2), (10, 1), (10, 2)] := by decide
  obtain ⟨later, hadvance, hmade⟩ := Option.map_eq_some_iff.1 hsteps
  have hwait : clicked.1.operateTimed? (.advanceTo 10) = some (Stage.accepted later) := by
    rw [Stage.operateTimed?, hadvance]
    rfl
  have hlast := hexecution.operate hwait
  exact ⟨later, _, hadvance, hlast, hmade, hlast.steps_in_order.1⟩

end SpriteStage

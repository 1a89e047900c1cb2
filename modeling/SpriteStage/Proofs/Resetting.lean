import SpriteStage.Proofs.Answers
set_option autoImplicit false

/-! # Resetting

A reset is final for all that came before it (`Reachable.reset_is_final`): runs, steps and memories
are gone at once, and nothing that is left in the agenda can touch what the sprite shows.

Two properties are kept from then on. While time passes no step is scheduled and the sprite shows
nothing (`Stage.Blank`): a clearing that is left, as it is when stale timers fire, empties what is
empty. And whatever is done to the stage, the runs on its table are younger than those that were
there before (`Stage.Younger`), so none of the old ones makes a step again. -/

namespace SpriteStage

/-! ## A sprite that shows nothing -/

/-- Transform, bubble and glide tag are as in the beginning, whatever the versions say. -/
structure Sprite.IsBlank (x : Sprite) : Prop where
  transform : x.transform = .zero
  speech : x.speech.value = .silent
  glide : x.glide.value = none

theorem Sprite.isBlank_reset (x : Sprite) : x.reset.IsBlank := ⟨rfl, rfl, rfl⟩

theorem Sprite.IsBlank.clear {x : Sprite} (h : x.IsBlank) (cell : Cell) : (x.clear cell).IsBlank := by
  cases cell with
  | speech => exact ⟨h.transform, rfl, h.glide⟩
  | glide => exact ⟨h.transform, h.speech, rfl⟩

namespace Stage

/-- No step is scheduled, and the sprite shows nothing. -/
structure Blank (s : Stage) : Prop where
  stepless : ∀ e ∈ s.agenda.entries, e.timer.isStep = false
  sprite : s.sprite.IsBlank

namespace Blank

variable {s s' : Stage}

/-- What fires leaves the sprite blank and schedules nothing but ticks of the demo. -/
theorem fire (h : Blank s) {entry : Appointment} {rest : List Appointment}
    (hentries : s.agenda.entries = entry :: rest) :
    Blank ((s.arrive entry rest).fire entry.timer).1 ∧
      ∀ event ∈ ((s.arrive entry rest).fire entry.timer).2, event.isOfTimer = true := by
  have hrest : ∀ e ∈ rest, e.timer.isStep = false := fun e he =>
    h.stepless e (hentries ▸ List.mem_cons_of_mem _ he)
  cases htimer : entry.timer with
  | step run index =>
      have hstep := h.stepless entry (hentries ▸ List.mem_cons_self)
      rw [htimer] at hstep
      cases hstep
  | clear cell version =>
      rcases (s.arrive entry rest).fireClear_cases cell version with heq | heq <;>
        rw [Stage.fire, heq]
      · exact ⟨⟨hrest, h.sprite.clear cell⟩, by simp [StageEvent.isOfTimer]⟩
      · exact ⟨⟨hrest, h.sprite⟩, by simp [StageEvent.isOfTimer]⟩
  | demoTick session =>
      rcases (s.arrive entry rest).fireDemoTick_cases session with ⟨-, heq⟩ | ⟨-, -, heq⟩ <;>
        rw [Stage.fire, heq]
      · exact ⟨⟨hrest, h.sprite⟩, List.forall_mem_nil _⟩
      · refine ⟨⟨fun e he => ?_, h.sprite⟩, by simp [StageEvent.isOfTimer]⟩
        rcases Agenda.mem_schedule.1 he with rfl | he
        · rfl
        · exact hrest e he

/-- While time passes the sprite stays blank, and nothing is told but what clearings and the demo
    do. -/
theorem operate? (h : Blank s) {operation : Operation}
    {answer : Except StageError (List StageEvent)} (hwait : operation.isWait = true)
    (hop : s.operate? operation = some (s', answer)) :
    Blank s' ∧ ∀ event ∈ eventsOf answer, event.isOfTimer = true := by
  obtain ⟨timed, htimed, rfl⟩ := exists_operateTimed? hop
  let P : Stage → List TimedEvent → Prop := fun x log =>
    Blank x ∧ ∀ e ∈ log, e.event.isOfTimer = true
  have hadvance : ∀ {x x' target log more}, P x log → x.advanceTimed? target = some (x', more) →
      P x' (log ++ more) := by
    intro x x' target log more hx hadvance
    obtain ⟨mid, ⟨hmid, hlog⟩, -, rfl⟩ := advanceTimed?_induction (P := P)
      (fun {y log entry rest} hentries _ ⟨hy, hlog⟩ => by
        obtain ⟨hfired, hevents⟩ := hy.fire hentries
        refine ⟨hfired, fun e he => ?_⟩
        rcases List.mem_append.1 he with he | he
        · exact hlog e he
        · obtain ⟨event, hevent, rfl⟩ := mem_stamp.1 he
          exact hevents event hevent) log hadvance hx
    exact ⟨⟨hmid.stepless, hmid.sprite⟩, hlog⟩
  have hs : P s [] := ⟨h, nofun⟩
  obtain ⟨hblank, hlog⟩ := waiting_induction hadvance hwait [] htimed hs
  refine ⟨hblank, fun event hevent => ?_⟩
  rw [eventsOf_map] at hevent
  obtain ⟨e, he, rfl⟩ := List.mem_map.1 hevent
  exact hlog e he

end Blank

end Stage

/-! ## Runs that are gone -/

/-- The run that makes a step or its end, as an event tells. -/
def StageEvent.progressOf? : StageEvent → Option RunId
  | .stepApplied run _ _ | .runFinished run => some run
  | _ => none

theorem StageEvent.progressOf?_eq_none {event : StageEvent} (h : event.isOfStep = false) :
    event.progressOf? = none := by
  cases event <;> first | rfl | cases h

theorem StageEvent.isOfStep_eq_false_of_isOfTimer {event : StageEvent}
    (h : event.isOfTimer = true) : event.isOfStep = false := by
  cases event <;> first | rfl | cases h

namespace Stage

/-- All runs on the table are younger than a run that there was. -/
structure Younger (last : RunId) (s : Stage) : Prop where
  le_lastId : last ≤ s.runs.lastId
  younger : ∀ id ∈ s.runs.ids, last < id

/-- Only younger runs go on. -/
def YoungerIn (last : RunId) (events : List StageEvent) : Prop :=
  ∀ event ∈ events, ∀ run, event.progressOf? = some run → last < run

section YoungerIn

variable {last : RunId} {events later : List StageEvent}

theorem youngerIn_nil : YoungerIn last [] := List.forall_mem_nil _

theorem YoungerIn.append (h : YoungerIn last events) (hlater : YoungerIn last later) :
    YoungerIn last (events ++ later) := by
  intro event hevent
  rcases List.mem_append.1 hevent with hevent | hevent
  · exact h event hevent
  · exact hlater event hevent

theorem youngerIn_of_still (h : ∀ event ∈ events, event.isOfStep = false) :
    YoungerIn last events := by
  intro event hevent run hrun
  rw [StageEvent.progressOf?_eq_none (h event hevent)] at hrun
  cases hrun

end YoungerIn

theorem undo_isOfStep (s : Stage) : ∀ event ∈ s.undo.2, event.isOfStep = false := by
  intro event hevent
  rcases s.undo_tells event hevent with ⟨_, _, rfl⟩ | ⟨_, rfl⟩ <;> rfl

theorem reset_isOfStep (s : Stage) : ∀ event ∈ s.reset.2, event.isOfStep = false := by
  intro event hevent
  rcases s.reset_tells event hevent with ⟨_, _, rfl⟩ | rfl <;> rfl

namespace Younger

variable {last : RunId} {s s' : Stage}

theorem of_eq (h : Younger last s) (hruns : s'.runs = s.runs) : Younger last s' := by
  obtain ⟨hle, hyounger⟩ := h
  rw [← hruns] at hle hyounger
  exact ⟨hle, hyounger⟩

/-- A run makes a step only while it is on the table. -/
theorem runStep (h : Younger last s) (run : RunId) (index : Nat) :
    Younger last (s.runStep run index).1 ∧ YoungerIn last (s.runStep run index).2 := by
  rcases s.runStep_cases run index with ⟨heq, -⟩ | ⟨r, hi, hr, hcase⟩
  · rw [heq]
    exact ⟨h, youngerIn_nil⟩
  · have hrun : last < run := h.younger run (by
      obtain ⟨hmem, rfl⟩ := RunTable.mem_of_find? hr
      exact RunTable.mem_ids.2 ⟨r, hmem, rfl⟩)
    rcases hcase with ⟨-, heq⟩ | ⟨-, heq⟩ <;> rw [heq]
    · refine ⟨⟨h.le_lastId, ?_⟩, ?_⟩
      · intro id hid
        have hmem : id ∈ (s.runs.moveTo run index).ids := hid
        rw [RunTable.ids_moveTo] at hmem
        exact h.younger id hmem
      · simp [YoungerIn, StageEvent.progressOf?, hrun]
    · refine ⟨⟨h.le_lastId, ?_⟩, ?_⟩
      · intro id hid
        have hmem : id ∈ (s.runs.remove run).ids := hid
        rw [RunTable.ids_remove] at hmem
        exact h.younger id (List.mem_filter.1 hmem).1
      · simp [YoungerIn, StageEvent.progressOf?, hrun]

theorem firstSteps (h : Younger last s) (ids : List RunId) :
    Younger last (s.firstSteps ids).1 ∧ YoungerIn last (s.firstSteps ids).2 := by
  induction ids generalizing s with
  | nil => exact ⟨h, youngerIn_nil⟩
  | cons run rest ih =>
      obtain ⟨hstep, hevents⟩ := h.runStep run 0
      obtain ⟨hlast, hlater⟩ := ih hstep
      rw [firstSteps_cons]
      exact ⟨hlast, hevents.append hlater⟩

/-- New runs get new numbers. -/
theorem startRuns (h : Younger last s) (origin : RunOrigin) (runs : List (List Action)) :
    Younger last (s.startRuns origin runs).1 := by
  induction runs generalizing s with
  | nil => exact h
  | cons actions rest ih =>
      rw [startRuns_cons]
      refine ih ⟨Nat.le_succ_of_le h.le_lastId, fun id hid => ?_⟩
      rw [startRun, RunTable.ids_start, List.mem_append, List.mem_singleton] at hid
      rcases hid with hid | rfl
      · exact h.younger id hid
      · exact Nat.lt_succ_of_le h.le_lastId

theorem dispatch (h : Younger last s) (origin : RunOrigin) :
    Younger last (s.dispatch origin).1 ∧ YoungerIn last (s.dispatch origin).2 := by
  cases hplan : s.program.plan origin s.isPlaying with
  | ignore reason =>
      rw [dispatch_of_ignore hplan]
      exact ⟨h, youngerIn_of_still (by simp [StageEvent.isOfStep])⟩
  | start runs =>
      have hstarted : Younger last (s.startAll origin runs).1 :=
        startRuns (h.of_eq rfl : Younger last { s with history := s.history.push (.capture s.sprite) })
          origin runs
      obtain ⟨hlast, hsteps⟩ := hstarted.firstSteps (s.startAll origin runs).2.1
      have hquiet : YoungerIn last (.historyPushed (s.history.push (.capture s.sprite)).depth
          :: (s.startAll origin runs).2.2) := by
        refine youngerIn_of_still fun event hevent => ?_
        rcases List.mem_cons.1 hevent with rfl | hevent
        · rfl
        · have hstarts := startRuns_startsRun _ origin runs event hevent
          cases event <;> first | rfl | cases hstarts
      rw [dispatch_of_start hplan]
      exact ⟨hlast, hquiet.append hsteps⟩

theorem cancelRuns (h : Younger last s) : Younger last s.cancelRuns.1 := ⟨h.le_lastId, nofun⟩

theorem undo (h : Younger last s) : Younger last s.undo.1 := by
  rcases s.undo_cases with ⟨-, heq⟩ | ⟨newest, rest, -, heq⟩
  · rwa [heq]
  · have hbefore : Younger last s.beforeUndo.1 := by
      unfold beforeUndo
      split
      · exact h.cancelRuns
      · exact h
    rw [heq]
    exact hbefore.of_eq rfl

theorem fire (h : Younger last s) (timer : Timer) :
    Younger last (s.fire timer).1 ∧ YoungerIn last (s.fire timer).2 := by
  cases timer with
  | step run index => exact h.runStep run index
  | clear cell version =>
      rcases s.fireClear_cases cell version with heq | heq <;> rw [Stage.fire, heq]
      · exact ⟨h.of_eq rfl, youngerIn_of_still (by simp [StageEvent.isOfStep])⟩
      · exact ⟨h, youngerIn_of_still (by simp [StageEvent.isOfStep])⟩
  | demoTick session =>
      rcases s.fireDemoTick_cases session with ⟨-, heq⟩ | ⟨-, -, heq⟩ <;> rw [Stage.fire, heq]
      · exact ⟨h, youngerIn_nil⟩
      · exact ⟨h.of_eq rfl, youngerIn_of_still (by simp [StageEvent.isOfStep])⟩

end Younger

/-- Whatever happens, only younger runs go on. -/
theorem Moves.younger {last : RunId} {s s' : Stage} {events : List StageEvent}
    {started : List Announcement} (m : Moves s events started s') (h : Younger last s) :
    Younger last s' ∧ YoungerIn last events := by
  cases m with
  | click origin => exact h.dispatch origin
  | once action =>
      exact ⟨h.of_eq (s.perform_runs action), youngerIn_of_still (by simp [StageEvent.isOfStep])⟩
  | undo => exact ⟨h.undo, youngerIn_of_still s.undo_isOfStep⟩
  | reset => exact ⟨h.cancelRuns.of_eq rfl, youngerIn_of_still s.reset_isOfStep⟩
  | fire hentries => exact (h.of_eq rfl : Younger last (s.arrive _ _)).fire _
  | openDemo | closeDemo | startDemo _ _ =>
      exact ⟨h.of_eq rfl, youngerIn_of_still (by simp [StageEvent.isOfStep])⟩
  | nothing | replace _ | point _ | calibrate _ | resize _ | wait _ _ =>
      exact ⟨h.of_eq rfl, youngerIn_nil⟩

theorem Path.younger {last : RunId} {s s' : Stage} {log : List TimedEvent}
    {started : List Announcement} (h : Path s log started s') (hs : Younger last s) :
    Younger last s' ∧ YoungerIn last (log.map (·.event)) := by
  induction h with
  | nil => exact ⟨hs, youngerIn_nil⟩
  | cons move _ ih =>
      obtain ⟨hmid, hevents⟩ := move.younger hs
      obtain ⟨hlast, hlater⟩ := ih hmid
      refine ⟨hlast, ?_⟩
      simpa [stamp, Function.comp_def] using hevents.append hlater

theorem Younger.operate? {last : RunId} {s s' : Stage} {operation : Operation}
    {answer : Except StageError (List StageEvent)} (h : Younger last s)
    (hop : s.operate? operation = some (s', answer)) :
    Younger last s' ∧ YoungerIn last (eventsOf answer) := by
  obtain ⟨timed, htimed, rfl⟩ := exists_operateTimed? hop
  rw [eventsOf_map]
  exact (path_of_operateTimed? htimed).younger h

/-! ## After a reset -/

theorem reset_eq (s : Stage) : s.reset.2
    = s.runs.runs.map (fun r => .runCancelled r.id r.step) ++ [.reset] := by
  simp [reset, cancelRuns, RunTable.cancelAll]

theorem stepless_reset (s : Stage) : ∀ e ∈ s.reset.1.agenda.entries, e.timer.isStep = false := by
  intro e he
  rcases s.reset_agenda with hagenda | hagenda <;> rw [hagenda] at he
  · exact (Agenda.mem_cancel.1 (Agenda.mem_cancel.1 he).1).2
  · exact (Agenda.mem_cancel.1 he).2

/-- Unless stale timers fire, only the demo has something left to do. -/
theorem isDemoTick_reset {s : Stage} (hpolicy : s.config.stalePolicy = .drop) :
    ∀ e ∈ s.reset.1.agenda.entries, e.timer.isDemoTick = true := by
  intro e he
  have hstep := s.stepless_reset e he
  have hclear : e.timer.isClear = false := by
    simp only [reset, cancelRuns, hpolicy, if_pos] at he
    exact (Agenda.mem_cancel.1 he).2
  cases htimer : e.timer <;> simp_all [Timer.isStep, Timer.isClear, Timer.isDemoTick]

theorem blank_reset (s : Stage) : Blank s.reset.1 := ⟨s.stepless_reset, s.sprite.isBlank_reset⟩

theorem younger_reset (s : Stage) : Younger s.runs.lastId s.reset.1 := ⟨Nat.le_refl _, nofun⟩

end Stage

/-- A reset of a stage that can be reached says of each run, in the order of their numbers, that it is
    cancelled. It leaves a blank sprite, no memories, no runs and no steps in the agenda, and unless
    stale timers fire nothing at all but the tick of the demo. The demo, the pointer, the origin, the
    program, the random numbers and the clock stay as they are. However much time passes then, the
    sprite stays blank and no step is made; and whatever else is done, no run that was started before
    the reset makes a step or is finished. -/
theorem Reachable.reset_is_final {s : Stage} (h : Reachable s) :
    ∃ s', s.handle .reset
        = (s', .ok (s.runs.runs.map (fun r => .runCancelled r.id r.step) ++ [.reset])) ∧
      s.runs.runs.Pairwise (fun a b => a.id < b.id) ∧
      (∀ r ∈ s.runs.runs, r.id ≤ s.runs.lastId) ∧
      s'.sprite.IsBlank ∧ s'.history.memories = [] ∧ s'.runs.runs = [] ∧
      (∀ e ∈ s'.agenda.entries, e.timer.isStep = false) ∧
      (s.config.stalePolicy = .drop → ∀ e ∈ s'.agenda.entries, e.timer.isDemoTick = true) ∧
      s'.demo = s.demo ∧ s'.agenda.dues Timer.demoTick? = s.agenda.dues Timer.demoTick? ∧
      s'.pointer = s.pointer ∧ s'.origin = s.origin ∧ s'.program = s.program ∧
      s'.generator = s.generator ∧ s'.now = s.now ∧
      (∀ waits last records, (∀ operation ∈ waits, operation.isWait = true) →
        s'.operateAll? waits = some (last, records) →
        last.sprite.IsBlank ∧ ∀ r ∈ records, ∀ events, r.answer = .ok events →
          ∀ event ∈ events, event.isOfStep = false) ∧
      (∀ ops last records, s'.operateAll? ops = some (last, records) →
        ∀ r ∈ records, ∀ events, r.answer = .ok events →
          ∀ event ∈ events, ∀ run, event.progressOf? = some run → s.runs.lastId < run) := by
  have hascending := h.continued.ascending
  refine ⟨s.reset.1, ?_, hascending.sorted, hascending.bounded, s.sprite.isBlank_reset, rfl, rfl,
    s.stepless_reset, Stage.isDemoTick_reset, rfl,
    s.dues_reset Timer.isStep_of_demoTick? Timer.isClear_of_demoTick?, rfl, rfl, rfl, rfl, rfl,
    ?_, ?_⟩
  · rw [← s.reset_eq]
    rfl
  · intro waits last records hwaits hops
    obtain ⟨hblank, hevents⟩ := Stage.operateAll?_answers
      (fun operation hmem _ _ _ hx hop => hx.operate? (hwaits operation hmem) hop) hops s.blank_reset
    exact ⟨hblank.sprite, fun r hr events hanswer event hevent =>
      StageEvent.isOfStep_eq_false_of_isOfTimer (hevents r hr events hanswer event hevent)⟩
  · intro ops last records hops
    exact (Stage.operateAll?_answers (fun _ _ _ _ _ hx hop => hx.operate? hop) hops
      s.younger_reset).2

/-- Where stale timers fire, a glide that is under way leaves its clearing behind. -/
theorem reset_is_final_for_glide :
    let start := Stage.build
      ⟨[[.glide 50 50 1000, .trigger .flagClicked]], none⟩ { stalePolicy := .fire }
    let s := (start.dispatch (.trigger .flagClicked)).1
    ∃ s', s.handle .reset = (s', .ok [.runCancelled 1 (some 0), .reset]) ∧
      s'.agenda.entries.map (·.timer) = [.clear .glide 1] ∧
      ∀ waits last records, (∀ operation ∈ waits, operation.isWait = true) →
        s'.operateAll? waits = some (last, records) → last.sprite.IsBlank := by
  intro start s
  have hstart : Reachable start := .new (Stage.isNew_build (by decide) _)
  have hreachable : Reachable s := hstart.handle .flagClicked rfl
  obtain ⟨s', hreset, -, -, -, -, -, -, -, -, -, -, -, -, -, -, hwaits, -⟩ :=
    hreachable.reset_is_final
  have htimers : s.reset.1.agenda.entries.map (·.timer) = [.clear .glide 1] := by decide +kernel
  obtain ⟨rfl, -⟩ := Prod.mk.inj hreset
  exact ⟨_, hreset, htimers,
    fun waits last records hall hops => (hwaits waits last records hall hops).1⟩

end SpriteStage

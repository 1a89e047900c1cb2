import SpriteStage.Proofs.Execution
set_option autoImplicit false

/-! # Nothing is overdue

On every stage that can be reached the agenda is in order, and no entry is due before the clock or
behind its end (`Reachable.timely`). So the clock stands exactly at the instant at which an entry is
due when it fires. -/

namespace SpriteStage

theorem le_after {now : Instant} (h : now ≤ lastInstant) (ms : Nat) : now ≤ after now ms := by
  unfold after
  lia

/-- Two waits after each other are one. -/
theorem after_after (now : Instant) (a b : Nat) : after (after now a) b = after now (a + b) := by
  unfold after
  lia

theorem after_zero {now : Instant} (h : now ≤ lastInstant) : after now 0 = now := by
  unfold after
  lia

/-- The clock has not passed its end, the agenda is in order, and every entry is due between now and
    the end. -/
structure Timely (s : Stage) : Prop where
  now_le : s.now ≤ lastInstant
  ordered : s.agenda.Ordered
  due : ∀ e ∈ s.agenda.entries, s.now ≤ e.due ∧ e.due ≤ lastInstant

namespace Timely

variable {s s' : Stage}

theorem of_eq (h : Timely s) (hagenda : s'.agenda = s.agenda) (hnow : s'.now = s.now) :
    Timely s' where
  now_le := hnow ▸ h.now_le
  ordered := hagenda ▸ h.ordered
  due := by rw [hagenda, hnow]; exact h.due

theorem of_schedule (h : Timely s) {ms : Nat} {timer : Timer}
    (hagenda : s'.agenda = s.agenda.schedule (after s.now ms) timer) (hnow : s'.now = s.now) :
    Timely s' where
  now_le := hnow ▸ h.now_le
  ordered := hagenda ▸ h.ordered.schedule _ _
  due e he := by
    rw [hagenda] at he
    rw [hnow]
    rcases Agenda.mem_schedule.1 he with rfl | he
    · exact ⟨le_after h.now_le ms, after_le_last s.now ms⟩
    · exact h.due e he

theorem of_cancel (h : Timely s) (condition : Timer → Bool)
    (hagenda : s'.agenda = s.agenda.cancel condition) (hnow : s'.now = s.now) : Timely s' where
  now_le := hnow ▸ h.now_le
  ordered := hagenda ▸ h.ordered.cancel _
  due e he := by
    rw [hagenda] at he
    rw [hnow]
    exact h.due e (Agenda.mem_cancel.1 he).1

/-! ## Actions and steps -/

theorem perform (h : Timely s) (action : Action) : Timely (s.perform action) := by
  rcases s.perform_agenda action with hagenda | ⟨ms, cell, version, hagenda⟩
  · exact h.of_eq hagenda (s.perform_now action)
  · exact h.of_schedule hagenda (s.perform_now action)

theorem runStep (h : Timely s) (run : RunId) (index : Nat) : Timely (s.runStep run index).1 := by
  rcases s.runStep_cases run index with ⟨heq, -⟩ | ⟨r, hi, -, ⟨-, heq⟩ | ⟨-, heq⟩⟩
  · rwa [heq]
  · rw [heq]
    exact (h.perform r.actions[index]).of_schedule (by simp [Stage.scheduleAfter]; rfl) rfl
  · rw [heq]
    exact (h.perform r.actions[index]).of_eq rfl rfl

theorem firstSteps (h : Timely s) (ids : List RunId) : Timely (s.firstSteps ids).1 := by
  induction ids generalizing s with
  | nil => exact h
  | cons run rest ih =>
      rw [Stage.firstSteps_cons]
      exact ih (h.runStep run 0)

theorem dispatch (h : Timely s) (origin : RunOrigin) : Timely (s.dispatch origin).1 := by
  cases hplan : s.program.plan origin s.isPlaying with
  | ignore reason => rwa [Stage.dispatch_of_ignore hplan]
  | start runs =>
      rw [Stage.dispatch_of_start hplan]
      refine firstSteps ?_ _
      rw [Stage.startAll_eq]
      exact h.of_eq rfl rfl

/-! ## Undoing and resetting -/

theorem cancelRuns (h : Timely s) : Timely s.cancelRuns.1 := h.of_cancel Timer.isStep rfl rfl

theorem undo (h : Timely s) : Timely s.undo.1 := by
  rcases s.undo_cases with ⟨-, heq⟩ | ⟨newest, rest, -, heq⟩
  · rwa [heq]
  · have hbefore : Timely s.beforeUndo.1 := by
      unfold Stage.beforeUndo
      split
      · exact h.cancelRuns
      · exact h
    rw [heq]
    exact hbefore.of_eq rfl rfl

theorem reset (h : Timely s) : Timely s.reset.1 := by
  rcases s.reset_agenda with hagenda | hagenda
  · exact h.cancelRuns.of_cancel Timer.isClear hagenda rfl
  · exact h.cancelRuns.of_eq hagenda rfl

/-! ## The demo -/

theorem closeDemo (h : Timely s) : Timely s.closeDemo.1 := by
  rcases s.closeDemo_agenda with hagenda | hagenda
  · exact h.of_cancel Timer.isDemoTick hagenda rfl
  · exact h.of_eq hagenda rfl

/-! ## The passage of time -/

/-- The first entry is due soonest, so the clock passes over no other. -/
theorem arrive (h : Timely s) {entry : Appointment} {rest : List Appointment}
    (hentries : s.agenda.entries = entry :: rest) : Timely (s.arrive entry rest) where
  now_le := by
    have hlast := (h.due entry (hentries ▸ List.mem_cons_self)).2
    exact Nat.max_le.2 ⟨h.now_le, hlast⟩
  ordered := h.ordered.tail hentries
  due e he := by
    have hdue := h.due e (hentries ▸ List.mem_cons_of_mem _ he)
    exact ⟨Nat.max_le.2 ⟨hdue.1, h.ordered.first_le hentries e he⟩, hdue.2⟩

/-- When an entry fires the clock stands at the instant at which it is due. -/
theorem now_arrive (h : Timely s) {entry : Appointment} {rest : List Appointment}
    (hentries : s.agenda.entries = entry :: rest) : (s.arrive entry rest).now = entry.due :=
  Nat.max_eq_right (h.due entry (hentries ▸ List.mem_cons_self)).1

theorem fire (h : Timely s) (timer : Timer) : Timely (s.fire timer).1 := by
  cases timer with
  | step run index => exact h.runStep run index
  | clear cell version =>
      rcases s.fireClear_cases cell version with heq | heq
      · simp only [Stage.fire, heq]
        exact h.of_eq rfl rfl
      · simpa only [Stage.fire, heq] using h
  | demoTick session =>
      rcases s.fireDemoTick_cases session with ⟨-, heq⟩ | ⟨-, -, heq⟩
      · simpa only [Stage.fire, heq] using h
      · simp only [Stage.fire, heq]
        exact h.of_schedule rfl rfl

/-- If nothing is due by an instant, every entry is due after it. -/
theorem lt_due (h : Timely s) {target : Instant} (hnone : s.fireNext? target = none) :
    ∀ e ∈ s.agenda.entries, target < e.due := by
  intro e he
  have hfirst := Stage.fireNext?_eq_none.1 hnone
  cases hentries : s.agenda.entries with
  | nil => exact absurd (hentries ▸ he : e ∈ []) (List.not_mem_nil)
  | cons first rest =>
      -- the first entry is due after the instant, and no entry is due before the first
      have htarget : target < first.due := hfirst first (by simp [hentries])
      rcases List.mem_cons.1 (hentries ▸ he : e ∈ first :: rest) with rfl | hmem
      · exact htarget
      · exact Nat.lt_of_lt_of_le htarget (h.ordered.first_le hentries e hmem)

theorem waitUntil (h : Timely s) {target : Instant} (hnone : s.fireNext? target = none)
    (hlast : target ≤ lastInstant) : Timely (s.waitUntil target) where
  now_le := Nat.max_le.2 ⟨h.now_le, hlast⟩
  ordered := h.ordered
  due e he :=
    ⟨Nat.max_le.2 ⟨(h.due e he).1, Nat.le_of_lt (h.lt_due hnone e he)⟩, (h.due e he).2⟩

end Timely

/-- Every move keeps the agenda in order and nothing overdue. -/
theorem Stage.Moves.timely {s s' : Stage} {events : List StageEvent} {started : List Announcement}
    (m : Moves s events started s') (h : Timely s) : Timely s' := by
  cases m with
  | nothing => exact h
  | replace program => exact h.of_eq rfl rfl
  | click origin => exact h.dispatch origin
  | once action => exact h.perform action
  | undo => exact h.undo
  | reset => exact h.reset
  | point position => exact h.of_eq rfl rfl
  | calibrate position => exact h.of_eq rfl rfl
  | resize width => exact h.of_eq rfl rfl
  | openDemo => exact h.of_eq rfl rfl
  | closeDemo => exact h.closeDemo
  | startDemo _ _ => exact h.of_schedule rfl rfl
  | fire hentries => exact (h.arrive hentries).fire _
  | wait hnone hlast => exact h.waitUntil hnone hlast

theorem Stage.IsNew.timely {config : StageConfig} {s : Stage} (h : s.IsNew config) : Timely s := by
  obtain ⟨-, program, generator, -, rfl⟩ := h
  exact ⟨Nat.zero_le _, Agenda.ordered_empty, nofun⟩

theorem Reachable.timely {s : Stage} (h : Reachable s) : Timely s :=
  h.induction (fun _ _ hnew => hnew.timely) fun _ _ _ _ hs hmove => hmove.timely hs

end SpriteStage

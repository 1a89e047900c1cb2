import SpriteStage.Proofs.Timeliness
set_option autoImplicit false

/-! # Firing all that is due

`Stage.Drains target` is the row of firings that lets nothing due by `target` stand, without a word
of fuel. `Stage.drain` finds it if the fuel is enough, and `Stage.workUntil` is enough unless the demo
is ticking at the last instant (`Stage.drain_isSome`): a step that fires leaves at most one clearing
and one step with fewer behind it, and a tick of the demo leaves one that is due later. -/

namespace SpriteStage

namespace Stage

/-! ## Rows of firings -/

/-- What is due by an instant fires, entry after entry, until nothing is left. -/
inductive Drains (target : Instant) : Stage → List StageEvent → Stage → Prop
  | done {s : Stage} (hnone : s.fireNext? target = none) : Drains target s [] s
  | fire {s mid s' : Stage} {events later : List StageEvent}
      (hfire : s.fireNext? target = some (mid, events)) (hrest : Drains target mid later s') :
      Drains target s (events ++ later) s'

section Drain

variable {target : Instant} {s s' : Stage} {events : List StageEvent}
  {first : Stage × List StageEvent}

theorem drain_of_none (hnone : s.fireNext? target = none) (fuel : Nat) :
    s.drain target fuel = some (s, []) := by
  cases fuel with
  | zero => simp [drain, hnone]
  | succ fuel => simp [drain, hnone]

theorem drain_zero (hfire : s.fireNext? target = some first) : s.drain target 0 = none := by
  unfold drain
  simp only [hfire]

theorem drain_succ (hfire : s.fireNext? target = some first) (fuel : Nat) :
    s.drain target (fuel + 1)
      = (first.1.drain target fuel).map fun last => (last.1, first.2 ++ last.2) := by
  rw [drain]
  simp only [hfire]
  cases first.1.drain target fuel <;> rfl

theorem drains_of_drain {fuel : Nat} (h : s.drain target fuel = some (s', events)) :
    Drains target s events s' := by
  induction fuel generalizing s events with
  | zero =>
      cases hfire : s.fireNext? target with
      | none =>
          rw [drain_of_none hfire] at h
          cases h
          exact .done hfire
      | some result =>
          rw [drain_zero hfire] at h
          cases h
  | succ fuel ih =>
      cases hfire : s.fireNext? target with
      | none =>
          rw [drain_of_none hfire] at h
          cases h
          exact .done hfire
      | some first =>
          -- one firing, and the rest of the row is found with less fuel
          rw [drain_succ hfire, Option.map_eq_some_iff] at h
          obtain ⟨⟨last, later⟩, hlater, heq⟩ := h
          cases heq
          exact .fire hfire (ih hlater)

end Drain

namespace Drains

variable {target : Instant} {s s' : Stage} {events : List StageEvent}

theorem fireNext?_eq_none (h : Drains target s events s') : s'.fireNext? target = none := by
  induction h with
  | done hnone => exact hnone
  | fire _ _ ih => exact ih

/-- There is one row at most. -/
theorem unique {other : Stage} {events' : List StageEvent} (h : Drains target s events s')
    (h' : Drains target s events' other) : events = events' ∧ s' = other := by
  induction h generalizing events' with
  | done hnone =>
      cases h' with
      | done _ => exact ⟨rfl, rfl⟩
      | fire hfire _ => simp [hnone] at hfire
  | fire hfire _ ih =>
      cases h' with
      | done hnone => simp [hnone] at hfire
      | fire hfire' hrest =>
          obtain ⟨rfl, rfl⟩ := Prod.mk.inj (Option.some.inj (hfire.symm.trans hfire'))
          obtain ⟨rfl, rfl⟩ := ih hrest
          exact ⟨rfl, rfl⟩

end Drains

/-! ## The work that is left -/

section Work

variable (s : Stage) (target : Instant)

/-- With shorter runs there is less to do. -/
theorem workOf_withRuns_le {runs : RunTable} (hruns : ∀ id, runs.stepsOf id ≤ s.runs.stepsOf id)
    (entry : Appointment) :
    ({ s with runs } : Stage).workOf target entry ≤ s.workOf target entry := by
  unfold workOf
  cases entry.timer with
  | step run index =>
      have h := hruns run
      unfold RunTable.stepsOf at h
      dsimp only
      omega
  | clear cell version => exact Nat.le_refl _
  | demoTick session => exact Nat.le_refl _

theorem workUntil_withRuns_le (runs : RunTable)
    (hruns : ∀ id, runs.stepsOf id ≤ s.runs.stepsOf id) :
    ({ s with runs } : Stage).workUntil target ≤ s.workUntil target := by
  unfold workUntil
  induction s.agenda.entries with
  | nil => exact Nat.le_refl _
  | cons entry rest ih =>
      rw [List.foldr_cons, List.foldr_cons]
      exact Nat.add_le_add (s.workOf_withRuns_le target hruns entry) ih

/-- It does not matter where in the agenda an entry stands. -/
theorem workUntil_scheduleAfter (ms : Nat) (timer : Timer) :
    (s.scheduleAfter ms timer).workUntil target
      = s.workOf target ⟨after s.now ms, s.agenda.nextSeq, timer⟩ + s.workUntil target := by
  have hperm := Agenda.insert_perm ⟨after s.now ms, s.agenda.nextSeq, timer⟩ s.agenda.entries
  have hfoldr := hperm.foldr_eq' (f := fun entry work => s.workOf target entry + work)
    (fun x _ y _ work => Nat.add_left_comm (s.workOf target y) (s.workOf target x) work) 0
  exact hfoldr

/-- An action makes one entry at most, a clearing. -/
theorem workUntil_perform_le (action : Action) :
    (s.perform action).workUntil target ≤ s.workUntil target + 1 := by
  rw [perform_eq]
  cases (s.performed action).clear with
  | none => exact Nat.le_succ _
  | some request =>
      rw [scheduleClear, workUntil_scheduleAfter, Nat.add_comm]
      exact Nat.le_refl _

end Work

/-- The first entry is part of the work that is left. -/
theorem workUntil_arrive {s : Stage} {entry : Appointment} {rest : List Appointment}
    (hentries : s.agenda.entries = entry :: rest) (target : Instant) :
    s.workUntil target = s.workOf target entry + (s.arrive entry rest).workUntil target := by
  rw [workUntil, hentries]
  rfl

/-! ## Firing is progress -/

/-- A step of a run leaves a clearing and the next step at most, and it is nearer to the end. -/
theorem workUntil_runStep_lt (s : Stage) (target : Instant) (run : RunId) (index : Nat) :
    (s.runStep run index).1.workUntil target
      < 2 * (s.runs.stepsOf run - index) + 1 + s.workUntil target := by
  rcases s.runStep_cases run index with ⟨heq, -⟩ | ⟨r, hi, hr, hcase⟩
  · rw [heq]
    dsimp only
    omega
  · have hsteps : s.runs.stepsOf run = r.actions.length := by rw [RunTable.stepsOf, hr]; rfl
    have hperform := s.workUntil_perform_le target r.actions[index]
    rw [hsteps]
    rcases hcase with ⟨hlt, heq⟩ | ⟨hlast, heq⟩
    · -- two for this step, against one for the clearing and what the next step has left
      have hmoved := (s.perform r.actions[index]).workUntil_withRuns_le target
        (s.runs.moveTo run index) (by simp [RunTable.stepsOf_moveTo])
      have hnext := (s.runs.stepsOf_moveTo run index run).trans hsteps
      rw [heq, workUntil_scheduleAfter]
      simp only [workOf]
      unfold RunTable.stepsOf at hnext
      omega
    · have hremoved := (s.perform r.actions[index]).workUntil_withRuns_le target
        (s.runs.remove run) (by simpa using s.runs.stepsOf_remove_le run)
      rw [heq]
      dsimp only
      omega

/-- Firing the first entry leaves less to do. A tick of the demo is followed by a later one, unless
    it is due at the last instant. -/
theorem workUntil_fire_lt {s : Stage} {entry : Appointment} {rest : List Appointment}
    {target : Instant} (hentries : s.agenda.entries = entry :: rest) (hdue : entry.due ≤ target)
    (htick : 0 < s.demo.config.tickMs)
    (hlast : s.demo.isAnimating = true → entry.due < lastInstant) :
    ((s.arrive entry rest).fire entry.timer).1.workUntil target < s.workUntil target := by
  rw [workUntil_arrive hentries target]
  cases htimer : entry.timer with
  | step run index =>
      have hwork : s.workOf target entry = 2 * (s.runs.stepsOf run - index) + 1 := by
        simp only [workOf, htimer, RunTable.stepsOf]
      rw [hwork]
      exact (s.arrive entry rest).workUntil_runStep_lt target run index
  | clear cell version =>
      have hwork : s.workOf target entry = 1 := by simp only [workOf, htimer]
      have hsame : ((s.arrive entry rest).fireClear cell version).1.workUntil target
          = (s.arrive entry rest).workUntil target := by
        rcases (s.arrive entry rest).fireClear_cases cell version with heq | heq
        · rw [heq]
          rfl
        · rw [heq]
      rw [hwork, fire, hsame]
      omega
  | demoTick session =>
      have hwork : s.workOf target entry = target + 1 - entry.due := by simp only [workOf, htimer]
      rw [hwork, fire]
      rcases (s.arrive entry rest).fireDemoTick_cases session with ⟨-, heq⟩ | ⟨hwalking, -, heq⟩
      · rw [heq]
        dsimp only
        lia
      · -- the next tick is due later, and the work of a tick is the time that is left for it
        have hnext : entry.due < after (max s.now entry.due) s.demo.config.tickMs := by
          have hbefore := hlast hwalking
          unfold after
          lia
        have hlater : (s.arrive entry rest).demoTick.workUntil target
            = (target + 1 - after (max s.now entry.due) s.demo.config.tickMs)
              + (s.arrive entry rest).workUntil target := by
          rw [demoTick, workUntil_scheduleAfter]
          rfl
        rw [heq, hlater]
        lia

/-! ## Draining returns -/

/-- What is due by the instant runs out: the demo, if it is ticking, ticks past the instant. -/
structure Exhaustible (s : Stage) (target : Instant) : Prop where
  tick_pos : 0 < s.demo.config.tickMs
  ends : s.demo.isAnimating = true → target < lastInstant

theorem Exhaustible.fire {s : Stage} {target : Instant} (h : s.Exhaustible target)
    (entry : Appointment) (rest : List Appointment) :
    ((s.arrive entry rest).fire entry.timer).1.Exhaustible target := by
  refine ⟨?_, ?_⟩
  · rw [fire_demo_config]
    exact h.tick_pos
  · rw [fire_demo_isAnimating]
    exact h.ends

/-- Fuel for the work that is left is enough. -/
theorem drain_isSome {s : Stage} {target : Instant} {fuel : Nat} (h : s.Exhaustible target)
    (hfuel : s.workUntil target ≤ fuel) : ∃ result, s.drain target fuel = some result := by
  induction fuel generalizing s with
  | zero =>
      cases hfire : s.fireNext? target with
      | none => exact ⟨_, drain_of_none hfire 0⟩
      | some result =>
          -- what fires is work that is left, and there is none
          obtain ⟨entry, rest, hentries, hdue, -⟩ := fireNext?_eq_some.1 hfire
          have hless := workUntil_fire_lt hentries hdue h.tick_pos fun hwalking =>
            Nat.lt_of_le_of_lt hdue (h.ends hwalking)
          omega
  | succ fuel ih =>
      cases hfire : s.fireNext? target with
      | none => exact ⟨_, drain_of_none hfire _⟩
      | some result =>
          obtain ⟨entry, rest, hentries, hdue, rfl⟩ := fireNext?_eq_some.1 hfire
          have hless := workUntil_fire_lt hentries hdue h.tick_pos fun hwalking =>
            Nat.lt_of_le_of_lt hdue (h.ends hwalking)
          obtain ⟨last, hlast⟩ := ih (h.fire entry rest) (by omega)
          rw [drain_succ hfire, hlast]
          exact ⟨_, rfl⟩

/-- Letting time pass is firing what is due, and then waiting. -/
theorem advanceTo?_eq_some {s s' : Stage} {target : Instant} {events : List StageEvent} :
    s.advanceTo? target = some (s', events) →
      ∃ mid, Drains (min target lastInstant) s events mid ∧
        s' = mid.waitUntil (min target lastInstant) := by
  intro h
  rw [advanceTo?_eq, Option.map_eq_some_iff] at h
  obtain ⟨⟨mid, events'⟩, hdrain, heq⟩ := h
  obtain ⟨rfl, rfl⟩ := Prod.mk.inj heq
  exact ⟨mid, drains_of_drain hdrain, rfl⟩

theorem advanceTo?_of_drains {s mid : Stage} {target : Instant} {events : List StageEvent}
    (h : s.Exhaustible (min target lastInstant))
    (hdrains : Drains (min target lastInstant) s events mid) :
    s.advanceTo? target = some (mid.waitUntil (min target lastInstant), events) := by
  obtain ⟨⟨mid', events'⟩, hdrain⟩ := drain_isSome h (Nat.le_refl _)
  obtain ⟨rfl, rfl⟩ := hdrains.unique (drains_of_drain hdrain)
  rw [advanceTo?_eq, hdrain]
  rfl

/-! ## The clock -/

section Clock

variable {target : Instant} {s s' : Stage} {events : List StageEvent}

/-- Firing what is due by an instant takes the clock no further than the instant. -/
theorem Drains.now_bounds (h : Drains target s events s') :
    s.now ≤ s'.now ∧ s'.now ≤ max s.now target := by
  induction h with
  | done _ => exact ⟨Nat.le_refl _, Nat.le_max_left _ _⟩
  | @fire s _ _ _ _ hfire _ ih =>
      obtain ⟨entry, rest, -, hdue, rfl, -⟩ := exists_of_fireNext? hfire
      have hnow : ((s.arrive entry rest).fire entry.timer).1.now = max s.now entry.due := by
        rw [fire_now]
        rfl
      rw [hnow] at ih
      lia

/-- The clock ends where it is to, unless that is over. -/
theorem advanceTo?_now (h : s.advanceTo? target = some (s', events)) :
    s'.now = max s.now (min target lastInstant) := by
  obtain ⟨mid, hdrains, rfl⟩ := advanceTo?_eq_some h
  obtain ⟨hle, hmax⟩ := hdrains.now_bounds
  have hnow : (mid.waitUntil (min target lastInstant)).now
      = max mid.now (min target lastInstant) := rfl
  rw [hnow]
  lia

end Clock

end Stage

/-! ## Ticks have a length -/

theorem Stage.Moves.tickMs {s s' : Stage} {events : List StageEvent} {started : List Announcement}
    (m : Moves s events started s') : s'.demo.config.tickMs = s.demo.config.tickMs := by
  cases m with
  | click origin => rw [dispatch_demo]
  | undo => rw [undo_demo]
  | fire hentries => rw [fire_demo_config]; rfl
  | once action => rw [perform_demo]
  | nothing | replace _ | reset | point _ | calibrate _ | resize _ | openDemo | closeDemo
  | startDemo _ _ | wait _ _ => rfl

theorem StageConfig.tickMs_pos {config : StageConfig} (h : config.fault? = none) :
    0 < config.demo.tickMs := by
  rw [Nat.pos_iff_ne_zero]
  intro hzero
  unfold fault? at h
  rw [if_pos hzero] at h
  split at h <;> cases h

/-- The settings were looked at when the stage was made, so the ticks of its demo have a length. -/
theorem Reachable.tickMs_pos {s : Stage} (h : Reachable s) : 0 < s.demo.config.tickMs := by
  refine Reachable.induction (P := fun s => 0 < s.demo.config.tickMs) ?_ ?_ h
  · rintro config s ⟨hfault, program, generator, -, rfl⟩
    exact config.tickMs_pos hfault
  · intro s events started s' hs hmove
    rw [hmove.tickMs]
    exact hs

theorem Reachable.exhaustible {s : Stage} (h : Reachable s) {target : Instant}
    (hends : s.demo.isAnimating = true → target < lastInstant) : s.Exhaustible target :=
  ⟨h.tickMs_pos, hends⟩

/-- When the clock was advanced to an instant nothing is left that was due by it. -/
theorem Reachable.lt_due_of_advanceTo? {s s' : Stage} {target : Instant}
    {events : List StageEvent} (h : Reachable s)
    (hadvance : s.advanceTo? target = some (s', events)) :
    ∀ e ∈ s'.agenda.entries, min target lastInstant < e.due := by
  have htimely := (h.advanceTo hadvance).timely
  obtain ⟨mid, hdrains, rfl⟩ := Stage.advanceTo?_eq_some hadvance
  have hfirst := Stage.fireNext?_eq_none.1 hdrains.fireNext?_eq_none
  exact htimely.lt_due (Stage.fireNext?_eq_none.2 hfirst)

end SpriteStage

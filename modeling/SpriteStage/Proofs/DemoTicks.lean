import SpriteStage.Proofs.Execution
set_option autoImplicit false

/-! # The ticks of the demo

While the cats walk the window is open and exactly one tick is scheduled, that of their session;
while they stand there is none (`Reachable.paced`). So a tick never comes too late, and a new session
is never moved on by a tick of an old one. -/

namespace SpriteStage

/-- The ticks of the demo that are scheduled, as numbers of sessions. -/
def Agenda.demoTicks (a : Agenda) : List Nat := a.pick Timer.demoTick?

/-- The cats walk in an open window from one tick to the next. -/
structure Paced (s : Stage) : Prop where
  walking : s.demo.isAnimating = true →
    s.demo.isOpen = true ∧ s.agenda.demoTicks = [s.demo.session]
  idle : s.demo.isAnimating = false → s.agenda.demoTicks = []

namespace Paced

variable {s s' : Stage}

theorem of_eq (h : Paced s) (hdemo : s'.demo = s.demo)
    (hticks : s'.agenda.demoTicks = s.agenda.demoTicks) : Paced s' where
  walking := by rw [hdemo, hticks]; exact h.walking
  idle := by rw [hdemo, hticks]; exact h.idle

theorem perform (h : Paced s) (action : Action) : Paced (s.perform action) :=
  h.of_eq (s.perform_demo action) (s.pick_perform action fun _ _ => rfl)

theorem runStep (h : Paced s) (run : RunId) (index : Nat) : Paced (s.runStep run index).1 :=
  h.of_eq (s.runStep_demo run index)
    (Agenda.pick_eq_of_dues_eq (s.dues_runStep run index (fun _ _ => rfl) fun _ _ => rfl))

theorem dispatch (h : Paced s) (origin : RunOrigin) : Paced (s.dispatch origin).1 :=
  h.of_eq (s.dispatch_demo origin)
    (Agenda.pick_eq_of_dues_eq (s.dues_dispatch origin (fun _ _ => rfl) fun _ _ => rfl))

theorem undo (h : Paced s) : Paced s.undo.1 :=
  h.of_eq s.undo_demo (Agenda.pick_eq_of_dues_eq (s.dues_undo Timer.isStep_of_demoTick?))

theorem reset (h : Paced s) : Paced s.reset.1 :=
  h.of_eq rfl (Agenda.pick_eq_of_dues_eq
    (s.dues_reset Timer.isStep_of_demoTick? Timer.isClear_of_demoTick?))

/-- Closing the window stops the cats and takes their tick away. -/
theorem closeDemo (h : Paced s) : Paced s.closeDemo.1 := by
  refine ⟨nofun, fun _ => ?_⟩
  cases hwalking : s.demo.isAnimating with
  | true =>
      have hagenda : s.closeDemo.1.agenda = s.agenda.cancel Timer.isDemoTick := by
        simp [Stage.closeDemo, hwalking]
      rw [hagenda]
      exact Agenda.pick_cancel_of_true _ Timer.isDemoTick_of_demoTick?
  | false =>
      have hagenda : s.closeDemo.1.agenda = s.agenda := by simp [Stage.closeDemo, hwalking]
      rw [hagenda]
      exact h.idle hwalking

/-- A tick that is scheduled while there is none is the only one. -/
theorem of_schedule (hnone : s.agenda.demoTicks = []) (hopen : s'.demo.isOpen = true)
    (hwalking : s'.demo.isAnimating = true) {due : Instant} {session : Nat}
    (hsession : s'.demo.session = session)
    (hagenda : s'.agenda = s.agenda.schedule due (.demoTick session)) : Paced s' := by
  have hperm : s'.agenda.demoTicks.Perm (s'.demo.session :: s.agenda.demoTicks) := by
    rw [hagenda, hsession]
    exact s.agenda.pick_schedule_of_some due rfl
  rw [hnone] at hperm
  refine ⟨fun _ => ⟨hopen, List.perm_singleton.1 hperm⟩, fun hstands => ?_⟩
  rw [hwalking] at hstands
  cases hstands

/-- The one tick that is scheduled is followed by the next one. -/
theorem fire (h : Paced s) {entry : Appointment} {rest : List Appointment}
    (hentries : s.agenda.entries = entry :: rest) :
    Paced ((s.arrive entry rest).fire entry.timer).1 := by
  cases htimer : entry.timer with
  | step run index =>
      have harrive : Paced (s.arrive entry rest) :=
        h.of_eq rfl (Agenda.pick_cons_of_none hentries (by rw [htimer]; rfl))
      exact harrive.runStep run index
  | clear cell version =>
      have harrive : Paced (s.arrive entry rest) :=
        h.of_eq rfl (Agenda.pick_cons_of_none hentries (by rw [htimer]; rfl))
      rcases (s.arrive entry rest).fireClear_cases cell version with heq | heq
      · simp only [Stage.fire, heq]
        exact harrive.of_eq rfl rfl
      · simpa only [Stage.fire, heq] using harrive
  | demoTick session =>
      -- the tick that fires is the only one, so none is left when the next one is scheduled
      have hfirst : s.agenda.demoTicks = session :: (s.arrive entry rest).agenda.demoTicks :=
        Agenda.pick_cons_of_some hentries (by rw [htimer]; rfl)
      cases hwalking : s.demo.isAnimating with
      | false =>
          rw [h.idle hwalking] at hfirst
          cases hfirst
      | true =>
          obtain ⟨hopen, hticks⟩ := h.walking hwalking
          rw [hticks, List.cons.injEq] at hfirst
          obtain ⟨hsession, hnone⟩ := hfirst
          rcases (s.arrive entry rest).fireDemoTick_cases session with ⟨hother, -⟩ | ⟨-, -, heq⟩
          · exact absurd hsession.symm (hother hwalking)
          · rw [Stage.fire, heq]
            exact of_schedule hnone.symm ((Demo.step_isOpen _).trans hopen)
              ((Demo.step_isAnimating _).trans hwalking) (Demo.step_session _) rfl

end Paced

theorem Stage.Moves.paced {s s' : Stage} {events : List StageEvent} {started : List Announcement}
    (m : Moves s events started s') (h : Paced s) : Paced s' := by
  cases m with
  | click origin => exact h.dispatch origin
  | once action => exact h.perform action
  | undo => exact h.undo
  | reset => exact h.reset
  | resize width => exact ⟨h.walking, h.idle⟩
  | openDemo => exact ⟨fun hwalking => ⟨rfl, (h.walking hwalking).2⟩, h.idle⟩
  | closeDemo => exact h.closeDemo
  | startDemo hopen hidle => exact .of_schedule (h.idle hidle) hopen rfl rfl rfl
  | fire hentries => exact h.fire hentries
  | nothing | replace _ | point _ | calibrate _ | wait _ _ => exact h.of_eq rfl rfl

theorem Stage.IsNew.paced {config : StageConfig} {s : Stage} (h : s.IsNew config) : Paced s := by
  obtain ⟨-, program, generator, -, rfl⟩ := h
  exact ⟨nofun, fun _ => rfl⟩

theorem Reachable.paced {s : Stage} (h : Reachable s) : Paced s :=
  h.induction (fun _ _ hnew => hnew.paced) fun _ _ _ _ hs hmove => hmove.paced hs

end SpriteStage

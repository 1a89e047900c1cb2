import SpriteStage.Proofs.Operations
import SpriteStage.Proofs.Settling
set_option autoImplicit false

/-! # The demo as a clockwork

A `Clockwork` is the demo without a stage: the demo itself and the instant at which its next tick is
due while the cats walk. It can run to an instant (`Clockwork.runTo`) and answer the inputs that are
for the demo (`Clockwork.answer`).

Every stage carries one (`Stage.clockwork`). What happens to the sprite and the runs leaves it
alone, and letting time pass runs it to the instant that the clock reads afterwards. So before the
clock ends the clockwork of a stage is the one that has played the inputs for the demo, each at its
instant, and nothing else of all that was done (`Stage.IsNew.clockwork_eq_play`). -/

namespace SpriteStage

/-! ## Inputs for the demo -/

/-- Whether an input is for the demo and not for the sprite. -/
def StageInput.isForDemo : StageInput → Bool
  | .viewportResized _ | .demoOpen | .demoClose | .demoStart => true
  | _ => false

/-- An input for the demo, with the instant at which it came. -/
def Record.demoCue? (r : Record) : Option (Instant × StageInput) :=
  match r.operation with
  | .input input => if input.isForDemo then some (r.instant, input) else none
  | _ => none

/-! ## The clockwork -/

/-- The demo, and the instant of its next tick while the cats walk. -/
structure Clockwork where
  demo : Demo
  next : Option Instant

namespace Clockwork

/-- A demo that is closed, with the cats at their places. -/
def new (config : DemoConfig) : Clockwork := ⟨.new config, none⟩

/-- The cats make the step that is due at an instant. -/
def tick (c : Clockwork) (due : Instant) : Clockwork :=
  ⟨c.demo.step.1, some (after due c.demo.config.tickMs)⟩

/-- The next tick, if it is due by an instant and the one behind it comes later. -/
def due? (c : Clockwork) (target : Instant) : Option Instant :=
  c.next.filter fun due => due ≤ target ∧ due < after due c.demo.config.tickMs

theorem due?_eq_some {c : Clockwork} {target due : Instant} :
    c.due? target = some due ↔
      c.next = some due ∧ due ≤ target ∧ due < after due c.demo.config.tickMs := by
  simp [due?, Option.filter_eq_some_iff]

/-- Make all the steps that are due by an instant. -/
def runTo (target : Instant) (c : Clockwork) : Clockwork :=
  match _ : c.due? target with
  | none => c
  | some due => (c.tick due).runTo target
termination_by c.next.elim 0 (target + 1 - ·)
decreasing_by
  obtain ⟨hnext, hdue, hlater⟩ := due?_eq_some.1 ‹_›
  simp only [hnext, tick, Option.elim_some]
  lia

/-- Answer an input for the demo. -/
def answer (c : Clockwork) (now : Instant) : StageInput → Clockwork
  | .viewportResized width => { c with demo := c.demo.resize width }
  | .demoOpen => { c with demo := c.demo.openWindow }
  | .demoClose => ⟨c.demo.closeWindow, none⟩
  | .demoStart =>
    if c.demo.isOpen then
      match c.demo.start? with
      | none => c
      | some demo => ⟨demo, some (after now demo.config.tickMs)⟩
    else c
  | _ => c

/-- Answer inputs, each at its instant. -/
def play (c : Clockwork) (cues : List (Instant × StageInput)) : Clockwork :=
  cues.foldl (fun c cue => (c.runTo cue.1).answer cue.1 cue.2) c

theorem play_append (c : Clockwork) (cues later : List (Instant × StageInput)) :
    c.play (cues ++ later) = (c.play cues).play later := List.foldl_append

/-! ## Running -/

section Running

variable {c : Clockwork} {a b target due : Instant}

theorem runTo_of_none (h : c.due? target = none) : c.runTo target = c := by
  rw [runTo]
  split
  · rfl
  · simp_all

theorem runTo_of_some (h : c.due? target = some due) :
    c.runTo target = (c.tick due).runTo target := by
  rw [runTo]
  split
  · simp_all
  · simp_all

/-- Running to an instant and then to a later one is running to the later one. -/
theorem runTo_runTo (c : Clockwork) (hab : a ≤ b) : (c.runTo a).runTo b = c.runTo b := by
  fun_induction runTo a c with
  | case1 c hnone => rfl
  | case2 c due hdue ih =>
      obtain ⟨hnext, hle, hlater⟩ := due?_eq_some.1 hdue
      rw [ih, runTo_of_some (due?_eq_some.2 ⟨hnext, Nat.le_trans hle hab, hlater⟩)]

end Running

/-- The next tick is still to come. -/
def IsAhead (c : Clockwork) (now : Instant) : Prop := ∀ due, c.next = some due → now < due

theorem IsAhead.runTo_eq {c : Clockwork} {now : Instant} (h : c.IsAhead now) : c.runTo now = c := by
  refine runTo_of_none (Option.eq_none_iff_forall_ne_some.2 fun due hdue => ?_)
  obtain ⟨hnext, hle, -⟩ := due?_eq_some.1 hdue
  exact absurd hle (Nat.not_le.2 (h due hnext))

/-- What is not for the demo is not answered. -/
theorem answer_eq_self {input : StageInput} (h : input.isForDemo = false) (c : Clockwork)
    (now : Instant) : c.answer now input = c := by
  cases input with
  | viewportResized _ | demoOpen | demoClose | demoStart => cases h
  | pointerMoved _ | keyDown _ | spriteClicked | flagClicked | runAll | undo | reset | clicked _
  | spriteCentre _ => rfl

/-- A walk that begins has its first tick later than now. -/
theorem IsAhead.answer {c : Clockwork} {now : Instant} (h : c.IsAhead now)
    (htick : 0 < c.demo.config.tickMs) (hlast : now < lastInstant) (input : StageInput) :
    (c.answer now input).IsAhead now := by
  cases input with
  | demoClose => exact nofun
  | demoStart =>
      simp only [Clockwork.answer]
      split
      · unfold Demo.start?
        split
        · exact h
        · rename_i demo hdemo
          split at hdemo
          · cases hdemo
          · cases hdemo
            intro due hdue
            cases hdue
            unfold after
            lia
      · exact h
  | pointerMoved _ | keyDown _ | spriteClicked | flagClicked | runAll | undo | reset | clicked _
  | spriteCentre _ | viewportResized _ | demoOpen => exact h

end Clockwork

namespace Stage

/-! ## The clockwork of a stage -/

/-- The demo of a stage, with the instant of the first tick that is scheduled. -/
def clockwork (s : Stage) : Clockwork :=
  ⟨s.demo, (s.agenda.dues Timer.demoTick?).head?.map (·.1)⟩

section Moves

variable {s s' : Stage}

theorem clockwork_congr (hdemo : s'.demo = s.demo)
    (hdues : s'.agenda.dues Timer.demoTick? = s.agenda.dues Timer.demoTick?) :
    s'.clockwork = s.clockwork := by
  rw [clockwork, clockwork, hdemo, hdues]

/-- While the cats stand there is no next tick. -/
theorem next_of_idle (hp : Paced s) (hidle : s.demo.isAnimating = false) :
    s.agenda.dues Timer.demoTick? = [] := by
  have hticks := hp.idle hidle
  rw [Agenda.demoTicks, Agenda.pick_eq_map_dues, List.map_eq_nil_iff] at hticks
  exact hticks

/-- A tick that is scheduled while there is none is the next one. -/
theorem next_of_schedule {a : Agenda} (ha : a.Ordered) (hnone : a.dues Timer.demoTick? = [])
    (due : Instant) (session : Nat) :
    (a.schedule due (.demoTick session)).dues Timer.demoTick? = [(due, session)] := by
  have hkind : (Timer.demoTick session).demoTick? = some session := rfl
  rw [ha.dues_schedule due hkind, hnone]
  rfl

theorem clockwork_perform (s : Stage) (action : Action) :
    (s.perform action).clockwork = s.clockwork :=
  clockwork_congr (s.perform_demo action) (s.dues_perform action fun _ _ => rfl)

theorem clockwork_load (s : Stage) (program : Program) :
    (s.load program).1.clockwork = s.clockwork := by
  unfold load
  cases program.clicked with
  | none => rfl
  | some action => exact clockwork_perform _ action

/-- The answer to an input is that of the clockwork; an input that is not for the demo leaves it
    alone. -/
theorem Answers.clockwork_eq {input : StageInput} {events : List StageEvent}
    (ha : s.Answers input s' events) (ht : Timely s) (hp : Paced s) :
    s'.clockwork = s.clockwork.answer s.now input := by
  cases ha with
  | @click _ origin horigin =>
      have hforDemo : input.isForDemo = false := by
        cases input <;> simp_all [StageInput.origin?, StageInput.isForDemo]
      rw [Clockwork.answer_eq_self hforDemo]
      exact clockwork_congr (s.dispatch_demo origin)
        (s.dues_dispatch origin (fun _ _ => rfl) fun _ _ => rfl)
  | undo => exact clockwork_congr s.undo_demo (s.dues_undo Timer.isStep_of_demoTick?)
  | reset =>
      exact clockwork_congr rfl
        (s.dues_reset Timer.isStep_of_demoTick? Timer.isClear_of_demoTick?)
  | @once _ action _ => exact s.clockwork_perform action
  | closeDemo =>
      -- the tick that is scheduled is cancelled, and without a walk there is none
      have hdues : s.closeDemo.1.agenda.dues Timer.demoTick? = [] := by
        cases hwalking : s.demo.isAnimating with
        | true =>
            simp only [Stage.closeDemo, hwalking, ↓reduceIte]
            exact s.agenda.dues_cancel_of_true Timer.isDemoTick_of_demoTick?
        | false =>
            simp only [Stage.closeDemo, hwalking, Bool.false_eq_true, ↓reduceIte]
            exact next_of_idle hp hwalking
      rw [clockwork, hdues]
      rfl
  | startDemo hopen hidle =>
      have hdues := next_of_schedule ht.ordered (next_of_idle hp hidle)
        (after s.now s.demo.config.tickMs) (s.demo.session + 1)
      simp [Clockwork.answer, clockwork, scheduleAfter, hdues, hopen, Demo.start?, hidle]
  | walking hopen hwalking =>
      simp [Clockwork.answer, clockwork, hopen, Demo.start?, hwalking]
  | otherKey _ | point _ | calibrate _ | resize _ | openDemo => rfl

/-- The clockwork answers an input as the stage does; what the stage refuses leaves it alone. -/
theorem clockwork_handle (ht : Timely s) (hp : Paced s) {input : StageInput}
    {answer : Except StageError (List StageEvent)} (h : s.handle input = (s', answer)) :
    s'.clockwork = s.clockwork.answer s.now input := by
  cases answer with
  | ok events => exact (answers_of_handle h).clockwork_eq ht hp
  | error e =>
      obtain ⟨rfl, hrefused⟩ := refused_cases h
      rcases hrefused with ⟨_, _, rfl, -⟩ | ⟨rfl, hclosed, -⟩
      · rfl
      · simp [Clockwork.answer, clockwork, hclosed]

/-! ## Running with the clock -/

/-- A firing that is no tick leaves the clockwork alone. -/
theorem clockwork_fire {entry : Appointment} {rest : List Appointment}
    (hentries : s.agenda.entries = entry :: rest) (hother : entry.timer.isDemoTick = false) :
    ((s.arrive entry rest).fire entry.timer).1.clockwork = s.clockwork := by
  have hnone : entry.timer.demoTick? = none := by
    cases htimer : entry.timer <;> simp_all [Timer.demoTick?, Timer.isDemoTick]
  have harrive : (s.arrive entry rest).clockwork = s.clockwork :=
    clockwork_congr rfl (Agenda.dues_cons_of_none hentries hnone).symm
  rw [← harrive]
  cases htimer : entry.timer with
  | step run index =>
      exact clockwork_congr (runStep_demo _ run index)
        (dues_runStep _ run index (fun _ _ => rfl) fun _ _ => rfl)
  | clear cell version =>
      rcases (s.arrive entry rest).fireClear_cases cell version with heq | heq
      · exact clockwork_congr (by rw [fire, heq]) (by rw [fire, heq])
      · rw [fire, heq]
  | demoTick session => simp [htimer, Timer.isDemoTick] at hother

/-- A tick that fires is the next one of the clockwork. -/
theorem clockwork_fire_tick (ht : Timely s) (hp : Paced s) {entry : Appointment}
    {rest : List Appointment} (hentries : s.agenda.entries = entry :: rest)
    (htick : entry.timer.isDemoTick = true) :
    s.clockwork.next = some entry.due ∧
      ((s.arrive entry rest).fire entry.timer).1.clockwork = s.clockwork.tick entry.due := by
  obtain ⟨session, htimer⟩ : ∃ session, entry.timer = .demoTick session := by
    cases htimer : entry.timer <;> simp_all [Timer.isDemoTick]
  have hfirst : s.agenda.dues Timer.demoTick?
      = (entry.due, session) :: (s.arrive entry rest).agenda.dues Timer.demoTick? :=
    Agenda.dues_cons_of_some hentries (by rw [htimer]; rfl)
  refine ⟨by simp [clockwork, hfirst], ?_⟩
  cases hwalking : s.demo.isAnimating with
  | false =>
      rw [next_of_idle hp hwalking] at hfirst
      cases hfirst
  | true =>
      -- it is the only tick that is scheduled, and that of the session
      have hticks := (hp.walking hwalking).2
      rw [Agenda.demoTicks, Agenda.pick_eq_map_dues, hfirst, List.map_cons, List.cons.injEq,
        List.map_eq_nil_iff] at hticks
      obtain ⟨hsession, hnone⟩ := hticks
      have hdues : (s.arrive entry rest).demoTick.agenda.dues Timer.demoTick?
          = [(after (s.arrive entry rest).now s.demo.config.tickMs, s.demo.session)] :=
        next_of_schedule (ht.arrive hentries).ordered hnone _ _
      rw [ht.now_arrive hentries] at hdues
      rcases (s.arrive entry rest).fireDemoTick_cases session with ⟨hother, -⟩ | ⟨-, -, heq⟩
      · exact absurd hsession (hother hwalking)
      · rw [htimer, fire, heq, clockwork, hdues]
        rfl

end Moves

/-! ## While time passes -/

section Passing

variable {s s' : Stage} {target : Instant} {events : List StageEvent}

/-- Firing what is due by an instant runs the clockwork to it. -/
theorem Drains.clockwork_runTo (h : Drains target s events s') (ht : Timely s) (hp : Paced s)
    (htick : 0 < s.demo.config.tickMs) (hlast : target < lastInstant) :
    s'.clockwork.runTo target = s.clockwork.runTo target := by
  induction h with
  | done _ => rfl
  | @fire s mid _ _ _ hfire _ ih =>
      obtain ⟨entry, rest, hentries, hdue, rfl, -⟩ := exists_of_fireNext? hfire
      have hrest := ih ((ht.arrive hentries).fire _) (hp.fire hentries)
        (by rw [fire_demo_config]; exact htick)
      rw [hrest]
      cases htimer : entry.timer.isDemoTick with
      | false => rw [clockwork_fire hentries htimer]
      | true =>
          obtain ⟨hnext, heq⟩ := clockwork_fire_tick ht hp hentries htimer
          have hlater : entry.due < after entry.due s.clockwork.demo.config.tickMs := by
            have htick' : 0 < s.clockwork.demo.config.tickMs := htick
            unfold after
            lia
          rw [heq, Clockwork.runTo_of_some (Clockwork.due?_eq_some.2 ⟨hnext, hdue, hlater⟩)]

/-- What comes later than the entries of the agenda tell is ahead of the clockwork. -/
theorem isAhead_of_lt_due {now : Instant} (h : ∀ e ∈ s.agenda.entries, now < e.due) :
    s.clockwork.IsAhead now := by
  intro due hdue
  obtain ⟨⟨_, session⟩, hhead, rfl⟩ := Option.map_eq_some_iff.1 hdue
  obtain ⟨e, he, rfl, -⟩ := Agenda.mem_dues.1 (List.mem_of_head? hhead)
  exact h e he

end Passing

end Stage

namespace Reachable

variable {s s' : Stage} {target : Instant} {events : List StageEvent}

/-- Advancing the stage runs its clockwork to the instant that the clock reads then, and the next
    tick is still to come. -/
theorem clockwork_advanceTo (h : Reachable s) (hahead : s.clockwork.IsAhead s.now)
    (hadvance : s.advanceTo? target = some (s', events)) (hlast : s'.now < lastInstant) :
    s'.clockwork = s.clockwork.runTo s'.now ∧ s'.clockwork.IsAhead s'.now := by
  have hnow := Stage.advanceTo?_now hadvance
  have hreached : s'.clockwork.IsAhead (min target lastInstant) :=
    Stage.isAhead_of_lt_due (h.lt_due_of_advanceTo? hadvance)
  have hrun : s'.clockwork.runTo (min target lastInstant)
      = s.clockwork.runTo (min target lastInstant) := by
    obtain ⟨mid, hdrains, rfl⟩ := Stage.advanceTo?_eq_some hadvance
    exact hdrains.clockwork_runTo h.timely h.paced h.tickMs_pos (by lia)
  rw [hreached.runTo_eq] at hrun
  rw [hnow]
  rcases Nat.le_total s.now (min target lastInstant) with hle | hle
  · rw [Nat.max_eq_right hle]
    exact ⟨hrun, hreached⟩
  · -- the instant is over, and the next tick was later than now
    have hover : s.clockwork.IsAhead (min target lastInstant) := fun due hdue =>
      Nat.lt_of_le_of_lt hle (hahead due hdue)
    rw [hover.runTo_eq] at hrun
    rw [Nat.max_eq_left hle, hrun, hahead.runTo_eq]
    exact ⟨rfl, hahead⟩

theorem clockwork_settles (h : Reachable s) (hahead : s.clockwork.IsAhead s.now)
    (hsettles : Stage.Settles s events s') (hlast : s'.now < lastInstant) :
    s'.clockwork = s.clockwork.runTo s'.now ∧ s'.clockwork.IsAhead s'.now := by
  induction hsettles with
  | settled _ => exact ⟨hahead.runTo_eq.symm, hahead⟩
  | advance _ _ hadvance hrest ih =>
      -- the clock never goes back, so it has not reached its end in between
      have hle := hrest.now_le
      obtain ⟨hmid, haheadMid⟩ :=
        h.clockwork_advanceTo hahead hadvance (Nat.lt_of_le_of_lt hle hlast)
      obtain ⟨hstop, haheadStop⟩ := ih (h.advanceTo hadvance) haheadMid hlast
      rw [hmid, Clockwork.runTo_runTo _ hle] at hstop
      exact ⟨hstop, haheadStop⟩

theorem clockwork_wait (h : Reachable s) (hahead : s.clockwork.IsAhead s.now)
    {operation : Operation} {answer : Except StageError (List StageEvent)}
    (hwait : operation.isWait = true) (hop : s.operate? operation = some (s', answer))
    (hlast : s'.now < lastInstant) :
    s'.clockwork = s.clockwork.runTo s'.now ∧ s'.clockwork.IsAhead s'.now := by
  cases operation with
  | load _ | input _ => cases hwait
  | tick nanoseconds | advanceTo target =>
      obtain ⟨_, hadvance, rfl⟩ := Stage.map_accepted_eq_some.1 hop
      exact h.clockwork_advanceTo hahead hadvance hlast
  | settle =>
      obtain ⟨_, hsettle, rfl⟩ := Stage.map_accepted_eq_some.1 hop
      exact h.clockwork_settles hahead (Stage.settles_of_settleWithin hsettle) hlast

/-! ## Rows of operations -/

/-- A clockwork that has kept up with a stage keeps up when it plays what of an operation is for the
    demo. -/
theorem clockwork_operate? (h : Reachable s) {c : Clockwork} (hc : s.clockwork = c.runTo s.now)
    (hahead : s.clockwork.IsAhead s.now) {operation : Operation}
    {answer : Except StageError (List StageEvent)}
    (hop : s.operate? operation = some (s', answer)) (hlast : s'.now < lastInstant) :
    s'.clockwork = (c.play (Record.demoCue? ⟨operation, s'.now, answer⟩).toList).runTo s'.now ∧
      s'.clockwork.IsAhead s'.now := by
  cases hwait : operation.isWait with
  | true =>
      have hcue : Record.demoCue? ⟨operation, s'.now, answer⟩ = none := by
        cases operation <;> simp_all [Operation.isWait, Record.demoCue?]
      obtain ⟨hrun, haheadAfter⟩ := h.clockwork_wait hahead hwait hop hlast
      rw [hc, Clockwork.runTo_runTo _ (Stage.operate?_now_le hop)] at hrun
      rw [hcue]
      exact ⟨hrun, haheadAfter⟩
  | false =>
      cases operation with
      | tick _ | advanceTo _ | settle => cases hwait
      | load program =>
          have hstage : (s.load program).1 = s' := (Prod.mk.inj (Option.some.inj hop)).1
          have hnow : s'.now = s.now := by rw [← hstage, s.load_now]
          have hclockwork : s'.clockwork = s.clockwork := by rw [← hstage, s.clockwork_load]
          rw [hnow, hclockwork]
          exact ⟨hc, hahead⟩
      | input input =>
          have hhandle : s.handle input = (s', answer) := Option.some.inj hop
          have hnow := Stage.handle_now hhandle
          have hclockwork := Stage.clockwork_handle h.timely h.paced hhandle
          rw [hnow] at hlast
          have haheadAfter := hahead.answer h.tickMs_pos hlast input
          rw [hnow, hclockwork]
          refine ⟨?_, haheadAfter⟩
          cases hforDemo : input.isForDemo with
          | true =>
              have hplay : c.play (Record.demoCue? ⟨.input input, s.now, answer⟩).toList
                  = s.clockwork.answer s.now input := by
                rw [hc]
                simp [Record.demoCue?, hforDemo, Clockwork.play]
              rw [hplay, haheadAfter.runTo_eq]
          | false =>
              have hplay : c.play (Record.demoCue? ⟨.input input, s.now, answer⟩).toList = c := by
                simp [Record.demoCue?, hforDemo, Clockwork.play]
              rw [hplay, Clockwork.answer_eq_self hforDemo, hc]

/-- Between two operations the next tick is still to come, unless the clock has ended. -/
theorem isAhead (h : Reachable s) (hlast : s.now < lastInstant) : s.clockwork.IsAhead s.now := by
  induction h with
  | new hnew =>
      obtain ⟨-, program, generator, -, rfl⟩ := hnew
      exact nofun
  | operate h hop ih =>
      have hahead := ih (Nat.lt_of_le_of_lt (Stage.operate?_now_le hop) hlast)
      exact (h.clockwork_operate? hahead.runTo_eq.symm hahead hop hlast).2

/-- So on a settled stage nothing is due now. -/
theorem lt_due_of_isSettled (h : Reachable s) (hsettled : s.isSettled = true)
    (hlast : s.now < lastInstant) : ∀ e ∈ s.agenda.entries, s.now < e.due := by
  intro e he
  have htick := Stage.isSettled_iff.1 hsettled e he
  obtain ⟨session, htimer⟩ : ∃ session, e.timer = .demoTick session := by
    cases htimer : e.timer <;> simp_all [Timer.isDemoTick]
  have hmem : (e.due, session) ∈ s.agenda.dues Timer.demoTick? :=
    Agenda.mem_dues.2 ⟨e, he, rfl, by rw [htimer]; rfl⟩
  -- it is the only tick, so it is the next one
  have hticks : (s.agenda.dues Timer.demoTick?).length ≤ 1 := by
    rw [← List.length_map (·.2), ← Agenda.pick_eq_map_dues, ← Agenda.demoTicks]
    cases hwalking : s.demo.isAnimating with
    | true => simp [(h.paced.walking hwalking).2]
    | false => simp [h.paced.idle hwalking]
  refine h.isAhead hlast e.due ?_
  unfold Stage.clockwork
  cases hdues : s.agenda.dues Timer.demoTick? with
  | nil => simp [hdues] at hmem
  | cons first rest =>
      have hrest : rest = [] := by simpa [hdues] using hticks
      rw [hdues, hrest, List.mem_singleton] at hmem
      rw [← hmem]
      rfl

/-- A clockwork that has kept up with a stage keeps up with it along a row of operations. -/
theorem clockwork_operateAll (h : Reachable s) {c : Clockwork} (hc : s.clockwork = c.runTo s.now)
    (hahead : s.clockwork.IsAhead s.now) {ops : List Operation} {records : List Record}
    (hops : s.operateAll? ops = some (s', records)) (hlast : s'.now < lastInstant) :
    s'.clockwork = (c.play (records.filterMap Record.demoCue?)).runTo s'.now := by
  induction ops generalizing s c records with
  | nil =>
      cases hops
      exact hc
  | cons operation ops ih =>
      obtain ⟨mid, answer, rest, hop, hrest, rfl⟩ := Stage.operateAll?_cons_eq_some.1 hops
      have hle : mid.now ≤ s'.now :=
        Stage.operateAll?_induction (P := fun x => mid.now ≤ x.now)
          (fun _ _ _ _ _ hx hop => Nat.le_trans hx (Stage.operate?_now_le hop)) hrest
          (Nat.le_refl _)
      obtain ⟨hmid, haheadMid⟩ :=
        h.clockwork_operate? hc hahead hop (Nat.lt_of_le_of_lt hle hlast)
      rw [ih (h.operate hop) hmid haheadMid hrest, ← Clockwork.play_append]
      congr 2
      rw [List.filterMap_cons]
      cases Record.demoCue? ⟨operation, mid.now, answer⟩ <;> rfl

end Reachable

/-- Before the clock ends the demo of a stage is the clockwork that has played the inputs for the
    demo, each at its instant, and has run to the instant that the clock reads. -/
theorem Stage.IsNew.clockwork_eq_play {config : StageConfig} {start s : Stage}
    {ops : List Operation} {records : List Record} (hnew : start.IsNew config)
    (hops : start.operateAll? ops = some (s, records)) (hlast : s.now < lastInstant) :
    s.clockwork = ((Clockwork.new config.demo).play (records.filterMap Record.demoCue?)).runTo
      s.now := by
  have hreachable : Reachable start := .new hnew
  obtain ⟨-, program, generator, -, rfl⟩ := hnew
  have hahead : (Clockwork.new config.demo).IsAhead 0 := nofun
  exact hreachable.clockwork_operateAll hahead.runTo_eq.symm hahead hops hlast

end SpriteStage

import SpriteStage.Proofs.Clockwork
set_option autoImplicit false

/-! # The sprite without the demo

Two stages are the same but for the demo (`Stage.SameButDemo`) if nothing tells them apart but the
demo itself and its ticks in the agenda: the numbers under which the other entries were scheduled
may differ, but not the order in which they fire.

Whatever is done to the sprite and the runs keeps this, with the same events on both sides but for
those of the demo (`Stage.Mirrors`), and what is done to the demo changes only the side on which it
is done. -/

namespace SpriteStage

/-! ## What is for the demo -/

/-- Whether an event tells of the demo and not of the sprite. -/
def StageEvent.isOfDemo : StageEvent → Bool
  | .demoOpened | .demoClosed | .demoStarted _ | .demoFlipped _ => true
  | _ => false

/-- The events that do not tell of the demo. -/
def withoutDemo (events : List StageEvent) : List StageEvent := events.filter (!·.isOfDemo)

/-- Whether an operation is an input for the demo. -/
def Operation.isForDemo : Operation → Bool
  | .input given => given.isForDemo
  | _ => false

/-- What is written down of an operation without the events of the demo. -/
def Record.withoutDemo (r : Record) : Record :=
  { r with answer := r.answer.map SpriteStage.withoutDemo }

theorem withoutDemo_append (events later : List StageEvent) :
    withoutDemo (events ++ later) = withoutDemo events ++ withoutDemo later :=
  List.filter_append _ _

theorem withoutDemo_eq_self {events : List StageEvent}
    (h : ∀ event ∈ events, event.isOfDemo = false) : withoutDemo events = events :=
  List.filter_eq_self.2 fun event he => by rw [h event he]; rfl

/-- A timer that does not move the demo on. -/
def Timer.ofSprite? : Timer → Option Timer
  | .demoTick _ => none
  | timer => some timer

theorem Timer.ofSprite?_eq_some_iff {timer other : Timer} :
    timer.ofSprite? = some other ↔ other = timer ∧ timer.isDemoTick = false := by
  cases timer <;> simp [ofSprite?, isDemoTick, eq_comm]

theorem Timer.ofSprite?_eq_some {timer : Timer} (h : timer.isDemoTick = false) :
    timer.ofSprite? = some timer :=
  ofSprite?_eq_some_iff.2 ⟨rfl, h⟩

theorem Timer.ofSprite?_eq_none {timer : Timer} (h : timer.isDemoTick = true) :
    timer.ofSprite? = none := by
  cases timer <;> simp_all [ofSprite?, isDemoTick]

/-! ## Agendas -/

namespace Agenda

/-- What an agenda holds but the ticks of the demo, in the order in which it fires and with the
    instants at which it is due. -/
def pending (a : Agenda) : List (Instant × Timer) := a.dues Timer.ofSprite?

theorem mem_pending {a : Agenda} {due : Instant} {timer : Timer} :
    (due, timer) ∈ a.pending ↔
      timer.isDemoTick = false ∧ ∃ e ∈ a.entries, e.due = due ∧ e.timer = timer := by
  rw [pending, mem_dues]
  constructor
  · rintro ⟨e, he, rfl, hkind⟩
    obtain ⟨rfl, hother⟩ := Timer.ofSprite?_eq_some_iff.1 hkind
    exact ⟨hother, e, he, rfl, rfl⟩
  · rintro ⟨hother, e, he, rfl, rfl⟩
    exact ⟨e, he, rfl, Timer.ofSprite?_eq_some hother⟩

theorem pending_cancel (a : Agenda) (condition : Timer → Bool) :
    (a.cancel condition).pending = a.pending.filter fun x => !condition x.2 := by
  simp only [pending, dues, cancel, List.filterMap_filter, List.filter_filterMap]
  congr 1
  funext e
  cases htick : e.timer.isDemoTick with
  | true => cases hc : condition e.timer <;> simp [Timer.ofSprite?_eq_none htick]
  | false =>
      cases hc : condition e.timer <;>
        simp [Timer.ofSprite?_eq_some htick, Option.filter, hc]

/-- Two agendas in order hold the same but for the ticks of the demo. -/
structure SameButTicks (a b : Agenda) : Prop where
  ordered : a.Ordered
  ordered' : b.Ordered
  pending : b.pending = a.pending

namespace SameButTicks

variable {a b : Agenda}

theorem schedule (h : SameButTicks a b) (due : Instant) {timer : Timer}
    (hother : timer.isDemoTick = false) :
    SameButTicks (a.schedule due timer) (b.schedule due timer) := by
  refine ⟨h.ordered.schedule _ _, h.ordered'.schedule _ _, ?_⟩
  have hkind := Timer.ofSprite?_eq_some hother
  rw [Agenda.pending, Agenda.pending, h.ordered.dues_schedule due hkind,
    h.ordered'.dues_schedule due hkind, ← Agenda.pending, ← Agenda.pending, h.pending]

theorem schedule_tick (h : SameButTicks a b) (due : Instant) (session : Nat) :
    SameButTicks (a.schedule due (.demoTick session)) b :=
  ⟨h.ordered.schedule _ _, h.ordered', h.pending.trans (dues_schedule_of_none a due rfl).symm⟩

theorem cancel (h : SameButTicks a b) (condition : Timer → Bool) :
    SameButTicks (a.cancel condition) (b.cancel condition) := by
  refine ⟨h.ordered.cancel _, h.ordered'.cancel _, ?_⟩
  rw [pending_cancel, pending_cancel, h.pending]

theorem cancel_ticks (h : SameButTicks a b) : SameButTicks (a.cancel Timer.isDemoTick) b := by
  refine ⟨h.ordered.cancel _, h.ordered', h.pending.trans (dues_cancel_of_false a ?_).symm⟩
  intro timer x hkind
  exact (Timer.ofSprite?_eq_some_iff.1 hkind).2

/-- The first entry on the one side is a tick. -/
theorem tail_of_tick (h : SameButTicks a b) {entry : Appointment} {rest : List Appointment}
    (hentries : a.entries = entry :: rest) (htick : entry.timer.isDemoTick = true) :
    SameButTicks { a with entries := rest } b :=
  ⟨h.ordered.tail hentries, h.ordered',
    h.pending.trans (dues_cons_of_none hentries (Timer.ofSprite?_eq_none htick))⟩

/-- The first entry on the one side is the first entry on the other, where there are no ticks. -/
theorem exists_first (h : SameButTicks a b) (hb : ∀ e ∈ b.entries, e.timer.isDemoTick = false)
    {entry : Appointment} {rest : List Appointment} (hentries : a.entries = entry :: rest)
    (hother : entry.timer.isDemoTick = false) :
    ∃ entry' rest', b.entries = entry' :: rest' ∧ entry'.due = entry.due ∧
      entry'.timer = entry.timer ∧
      SameButTicks { a with entries := rest } { b with entries := rest' } := by
  have hfirst : a.pending
      = (entry.due, entry.timer) :: ({ a with entries := rest } : Agenda).pending :=
    dues_cons_of_some hentries (Timer.ofSprite?_eq_some hother)
  cases hentries' : b.entries with
  | nil =>
      have hpending := h.pending
      rw [hfirst, Agenda.pending, dues, hentries'] at hpending
      cases hpending
  | cons entry' rest' =>
      have hother' := hb entry' (hentries' ▸ List.mem_cons_self)
      have hfirst' : b.pending
          = (entry'.due, entry'.timer) :: ({ b with entries := rest' } : Agenda).pending :=
        dues_cons_of_some hentries' (Timer.ofSprite?_eq_some hother')
      have hpending := h.pending
      rw [hfirst, hfirst', List.cons.injEq, Prod.mk.injEq] at hpending
      obtain ⟨⟨hdue, htimer⟩, hrest⟩ := hpending
      exact ⟨entry', rest', rfl, hdue, htimer, h.ordered.tail hentries, h.ordered'.tail hentries',
        hrest⟩

end SameButTicks

end Agenda

/-! ## Stages -/

namespace Stage

/-- Nothing tells two stages apart but the demo and its ticks: settings, program, sprite with its
    versions, generator, runs, memories, pointer, origin and clock are the same, and so is what is
    pending in the agenda. -/
structure SameButDemo (s t : Stage) : Prop where
  stage : t = { s with agenda := t.agenda, demo := t.demo }
  agenda : s.agenda.SameButTicks t.agenda

/-- The stages are the same but for the demo, and so are the events that led to them. -/
def Mirrors (r r' : Stage × List StageEvent) : Prop :=
  SameButDemo r.1 r'.1 ∧ r'.2 = withoutDemo r.2

namespace SameButDemo

variable {s t : Stage}

theorem exists_eq (h : SameButDemo s t) :
    ∃ agenda demo, t = { s with agenda, demo } ∧ s.agenda.SameButTicks agenda :=
  ⟨t.agenda, t.demo, h.stage, h.agenda⟩

theorem refl (ht : Timely s) : SameButDemo s s := ⟨rfl, ht.ordered, ht.ordered, rfl⟩

theorem now_eq (h : SameButDemo s t) : t.now = s.now := by rw [h.stage]

/-! ### Actions and steps -/

theorem perform (h : SameButDemo s t) (action : Action) :
    SameButDemo (s.perform action) (t.perform action) := by
  obtain ⟨agenda, demo, rfl, hagenda⟩ := h.exists_eq
  have hperformed : ({ s with agenda, demo } : Stage).performed action = s.performed action := rfl
  rw [perform_eq, perform_eq, hperformed]
  cases (s.performed action).clear with
  | none => exact ⟨rfl, hagenda⟩
  | some request => exact ⟨rfl, hagenda.schedule _ rfl⟩

theorem runStep (h : SameButDemo s t) (run : RunId) (index : Nat) :
    Mirrors (s.runStep run index) (t.runStep run index) := by
  have hruns : t.runs = s.runs := by rw [h.stage]
  unfold Stage.runStep
  rw [hruns]
  cases s.runs.enter? run index with
  | none => exact ⟨h, rfl⟩
  | some entered =>
      obtain ⟨action, moved⟩ := entered
      have hmoved : SameButDemo { s with runs := moved } { t with runs := moved } := by
        obtain ⟨agenda, demo, rfl, hagenda⟩ := h.exists_eq
        exact ⟨rfl, hagenda⟩
      obtain ⟨agenda, demo, heq, hagenda⟩ := (hmoved.perform action).exists_eq
      simp only [heq]
      -- the run is over on both sides, or has the same next step on both
      rcases (({ s with runs := moved } : Stage).perform action).runs.complete run index with
        ⟨_ | next, completed⟩
      · exact ⟨⟨rfl, hagenda⟩, rfl⟩
      · exact ⟨⟨rfl, hagenda.schedule _ rfl⟩, rfl⟩

theorem startRuns (h : SameButDemo s t) (origin : RunOrigin) (runs : List (List Action)) :
    SameButDemo (s.startRuns origin runs).1 (t.startRuns origin runs).1 ∧
      (t.startRuns origin runs).2.1 = (s.startRuns origin runs).2.1 ∧
      (t.startRuns origin runs).2.2 = withoutDemo (s.startRuns origin runs).2.2 := by
  induction runs generalizing s t with
  | nil => exact ⟨h, rfl, rfl⟩
  | cons actions rest ih =>
      have hstart : SameButDemo (s.startRun origin actions) (t.startRun origin actions) := by
        obtain ⟨agenda, demo, rfl, hagenda⟩ := h.exists_eq
        exact ⟨rfl, hagenda⟩
      obtain ⟨hrest, hids, hevents⟩ := ih hstart
      have hlastId : t.runs.lastId = s.runs.lastId := by rw [h.stage]
      rw [startRuns_cons, startRuns_cons, hlastId]
      exact ⟨hrest, congrArg (List.cons _) hids, congrArg (List.cons _) hevents⟩

theorem firstSteps (h : SameButDemo s t) (ids : List RunId) :
    Mirrors (s.firstSteps ids) (t.firstSteps ids) := by
  induction ids generalizing s t with
  | nil => exact ⟨h, rfl⟩
  | cons run rest ih =>
      obtain ⟨hstep, hevents⟩ := h.runStep run 0
      obtain ⟨hrest, hlater⟩ := ih hstep
      rw [firstSteps_cons, firstSteps_cons]
      refine ⟨hrest, ?_⟩
      rw [withoutDemo_append, hevents, hlater]

theorem startAll (h : SameButDemo s t) (origin : RunOrigin) (runs : List (List Action)) :
    SameButDemo (s.startAll origin runs).1 (t.startAll origin runs).1 ∧
      (t.startAll origin runs).2.1 = (s.startAll origin runs).2.1 ∧
      (t.startAll origin runs).2.2 = withoutDemo (s.startAll origin runs).2.2 := by
  refine startRuns ?_ origin runs
  obtain ⟨agenda, demo, rfl, hagenda⟩ := h.exists_eq
  exact ⟨rfl, hagenda⟩

theorem dispatch (h : SameButDemo s t) (origin : RunOrigin) :
    Mirrors (s.dispatch origin) (t.dispatch origin) := by
  have hplan' : t.program.plan origin t.isPlaying = s.program.plan origin s.isPlaying := by
    rw [h.stage]
    rfl
  cases hplan : s.program.plan origin s.isPlaying with
  | ignore reason =>
      rw [dispatch_of_ignore hplan, dispatch_of_ignore (hplan'.trans hplan)]
      exact ⟨h, rfl⟩
  | start runs =>
      obtain ⟨hstarted, hids, hevents⟩ := h.startAll origin runs
      obtain ⟨hsteps, hlater⟩ := hstarted.firstSteps (s.startAll origin runs).2.1
      have hhistory : t.history.push (.capture t.sprite) = s.history.push (.capture s.sprite) := by
        rw [h.stage]
      rw [dispatch_of_start hplan, dispatch_of_start (hplan'.trans hplan), hids, hevents, hlater,
        hhistory]
      refine ⟨hsteps, ?_⟩
      rw [withoutDemo_append]
      rfl

/-! ### Undoing and resetting -/

theorem cancelRuns (h : SameButDemo s t) : Mirrors s.cancelRuns t.cancelRuns := by
  obtain ⟨agenda, demo, rfl, hagenda⟩ := h.exists_eq
  refine ⟨⟨rfl, hagenda.cancel Timer.isStep⟩, (withoutDemo_eq_self fun event hevent => ?_).symm⟩
  obtain ⟨r, -, rfl⟩ := List.mem_map.1 hevent
  rfl

theorem undo (h : SameButDemo s t) : Mirrors s.undo t.undo := by
  have hmemories : t.history.memories = s.history.memories := by rw [h.stage]
  have hbefore : Mirrors s.beforeUndo t.beforeUndo := by
    have hconfig : t.config = s.config := by rw [h.stage]
    unfold beforeUndo
    rw [hconfig]
    split
    · exact h.cancelRuns
    · exact ⟨h, rfl⟩
  rcases s.undo_cases with ⟨hnil, heq⟩ | ⟨newest, rest, hcons, heq⟩
  · rcases t.undo_cases with ⟨-, heq'⟩ | ⟨newest', rest', hcons', -⟩
    · rw [heq, heq']
      exact ⟨h, rfl⟩
    · rw [hmemories, hnil] at hcons'
      cases hcons'
  · rcases t.undo_cases with ⟨hnil', -⟩ | ⟨newest', rest', hcons', heq'⟩
    · rw [hmemories, hcons] at hnil'
      cases hnil'
    · rw [hmemories, hcons] at hcons'
      obtain ⟨rfl, rfl⟩ := List.cons.inj hcons'
      obtain ⟨agenda, demo, hstage, hagenda⟩ := hbefore.1.exists_eq
      have hhistory : t.history = s.history := by rw [h.stage]
      have hsprite : t.sprite = s.sprite := by rw [h.stage]
      rw [heq, heq', hstage, hbefore.2, hhistory, hsprite]
      refine ⟨⟨rfl, hagenda⟩, ?_⟩
      rw [withoutDemo_append]
      rfl

theorem reset (h : SameButDemo s t) : Mirrors s.reset t.reset := by
  obtain ⟨-, hevents⟩ := h.cancelRuns
  obtain ⟨agenda, demo, rfl, hagenda⟩ := h.exists_eq
  refine ⟨⟨rfl, ?_⟩, ?_⟩
  · have hsteps := hagenda.cancel Timer.isStep
    by_cases hpolicy : s.config.stalePolicy = .drop
    · simpa only [Stage.reset, Stage.cancelRuns, hpolicy, ↓reduceIte] using
        hsteps.cancel Timer.isClear
    · simpa only [Stage.reset, Stage.cancelRuns, hpolicy, ↓reduceIte] using hsteps
  · have hreset : s.reset.2 = s.cancelRuns.2 ++ [.reset] := rfl
    rw [hreset, withoutDemo_append, ← hevents]
    rfl

/-! ### Inputs -/

theorem load (h : SameButDemo s t) (program : Program) :
    Mirrors (s.load program) (t.load program) := by
  have hloaded : SameButDemo { s with program } { t with program } := by
    obtain ⟨agenda, demo, rfl, hagenda⟩ := h.exists_eq
    exact ⟨rfl, hagenda⟩
  unfold Stage.load
  cases program.clicked with
  | none => exact ⟨hloaded, rfl⟩
  | some action => exact ⟨hloaded.perform action, rfl⟩

/-- An input that is not for the demo has the same answer on both sides. -/
theorem handle (h : SameButDemo s t) {input : StageInput} (hother : input.isForDemo = false) :
    (∃ r r', s.handle input = accepted r ∧ t.handle input = accepted r' ∧ Mirrors r r') ∨
      ∃ e, s.handle input = (s, .error e) ∧ t.handle input = (t, .error e) := by
  cases horigin : input.origin? with
  | some origin =>
      exact Or.inl ⟨_, _, handle_of_origin horigin, handle_of_origin horigin, h.dispatch origin⟩
  | none =>
      cases input with
      | undo => exact Or.inl ⟨_, _, rfl, rfl, h.undo⟩
      | reset => exact Or.inl ⟨_, _, rfl, rfl, h.reset⟩
      | clicked descriptor =>
          rw [handle_clicked, handle_clicked]
          cases Action.ofDescriptor descriptor with
          | error cause => exact Or.inr ⟨.invalidAction cause, rfl, rfl⟩
          | ok action =>
              exact Or.inl ⟨s.performOnce action, t.performOnce action, rfl, rfl, h.perform action,
                rfl⟩
      | pointerMoved _ | spriteCentre _ =>
          refine Or.inl ⟨(_, _), (_, _), rfl, rfl, ?_, rfl⟩
          obtain ⟨agenda, demo, rfl, hagenda⟩ := h.exists_eq
          exact ⟨rfl, hagenda⟩
      | keyDown key =>
          cases key with
          | space => cases horigin
          | other code => exact Or.inl ⟨(_, _), (_, _), rfl, rfl, h, rfl⟩
      | spriteClicked | flagClicked | runAll => cases horigin
      | viewportResized _ | demoOpen | demoClose | demoStart => cases hother

/-- An input for the demo changes nothing but the demo. -/
theorem handle_demo (h : SameButDemo s t) {input : StageInput} (hdemo : input.isForDemo = true)
    {s' : Stage} {events : List StageEvent} (hhandle : s.handle input = (s', .ok events)) :
    SameButDemo s' t := by
  obtain ⟨agenda, demo, rfl, hagenda⟩ := h.exists_eq
  cases answers_of_handle hhandle with
  | resize _ | openDemo | walking _ _ => exact ⟨rfl, hagenda⟩
  | closeDemo =>
      refine ⟨rfl, ?_⟩
      dsimp only [closeDemo]
      split
      · exact hagenda.cancel_ticks
      · exact hagenda
  | startDemo _ _ => exact ⟨rfl, hagenda.schedule_tick _ _⟩
  | click horigin =>
      -- what starts runs is not for the demo
      cases input <;> first | exact absurd hdemo Bool.false_ne_true | cases horigin
  | otherKey _ | point _ | undo | reset | once _ | calibrate _ => cases hdemo

/-! ### Firing -/

theorem fire (h : SameButDemo s t) {timer : Timer} (hother : timer.isDemoTick = false) :
    Mirrors (s.fire timer) (t.fire timer) := by
  cases timer with
  | step run index => exact h.runStep run index
  | clear cell version =>
      obtain ⟨agenda, demo, rfl, hagenda⟩ := h.exists_eq
      by_cases hlive : version = s.sprite.version cell ∨ s.config.stalePolicy = .fire
      · simp only [Stage.fire, fireClear, hlive, ↓reduceIte]
        exact ⟨⟨rfl, hagenda⟩, rfl⟩
      · simp only [Stage.fire, fireClear, hlive, ↓reduceIte]
        exact ⟨⟨rfl, hagenda⟩, rfl⟩
  | demoTick session => cases hother

theorem fire_tick (h : SameButDemo s t) {timer : Timer} (htick : timer.isDemoTick = true) :
    SameButDemo (s.fire timer).1 t ∧ withoutDemo (s.fire timer).2 = [] := by
  cases timer with
  | demoTick session =>
      rcases s.fireDemoTick_cases session with ⟨-, heq⟩ | ⟨-, -, heq⟩
      · rw [Stage.fire, heq]
        exact ⟨h, rfl⟩
      · obtain ⟨agenda, demo, rfl, hagenda⟩ := h.exists_eq
        rw [Stage.fire, heq]
        refine ⟨⟨rfl, hagenda.schedule_tick _ _⟩, ?_⟩
        cases s.demo.step.2 <;> rfl
  | step _ _ | clear _ _ => cases htick

end SameButDemo

end Stage

end SpriteStage

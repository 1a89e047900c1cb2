import SpriteStage.Proofs.Continuations
import SpriteStage.Proofs.Ending
import SpriteStage.Proofs.Operations
set_option autoImplicit false

/-! # Where the policies on stale timers differ

What happens to stale timers is asked in three places: an undo cancels the runs that are under way, a
reset takes the clearings away that are pending, and a clearing that has become stale is dropped. In a
row of operations that comes to none of the three it makes no difference whether stale timers are
dropped or fire (`Stage.IsNew.policies_agree`).

The two stages go hand in hand, step by step: every function gives the same result on both, up to the
policy itself. An undo with nothing under way has no step to cancel, since every step in the agenda
belongs to a run (`Continued`). -/

namespace SpriteStage

/-! ## Races -/

/-- Whether an event tells that a stale timer was dropped. -/
def StageEvent.isDrop : StageEvent → Bool
  | .staleTimerDropped _ => true
  | _ => false

/-- Whether the answer to an operation tells that a stale timer was dropped. -/
def Record.tellsDrop (r : Record) : Bool :=
  match r.answer with
  | .ok events => events.any (·.isDrop)
  | .error _ => false

/-- Whether an operation races with what is scheduled: an undo that has something to put back while
    a run is under way, or a reset while a clearing is pending. -/
def Operation.races (operation : Operation) (s : Stage) : Bool :=
  match operation with
  | .input .undo => s.isPlaying && !s.history.memories.isEmpty
  | .input .reset => s.agenda.any (·.isClear)
  | _ => false

namespace Stage

/-- Whether no operation of a row races with what is scheduled when its turn comes. -/
def raceFree : Stage → List Operation → Bool
  | _, [] => true
  | s, operation :: rest =>
    !operation.races s && (s.operate? operation).all fun next => raceFree next.1 rest

/-! ## The other policy -/

/-- The same stage, but stale timers fire. -/
def firing (s : Stage) : Stage := { s with config := s.config.withStalePolicy .fire }

section Firing

variable (s : Stage)

theorem perform_firing (action : Action) : s.firing.perform action = (s.perform action).firing := by
  have hperformed : s.firing.performed action = s.performed action := rfl
  rw [perform_eq, perform_eq, hperformed]
  cases (s.performed action).clear <;> rfl

theorem runStep_firing (run : RunId) (index : Nat) :
    s.firing.runStep run index = ((s.runStep run index).1.firing, (s.runStep run index).2) := by
  have hruns : s.firing.runs = s.runs := rfl
  unfold runStep
  rw [hruns]
  cases s.runs.enter? run index with
  | none => rfl
  | some entered =>
      obtain ⟨action, moved⟩ := entered
      have hperform : ({ s.firing with runs := moved } : Stage).perform action
          = (({ s with runs := moved } : Stage).perform action).firing :=
        perform_firing { s with runs := moved } action
      simp only [hperform]
      -- what comes next is the matter of the table, which knows no policy
      generalize ({ s with runs := moved } : Stage).perform action = done
      have hruns' : done.firing.runs = done.runs := rfl
      rw [hruns']
      rcases done.runs.complete run index with ⟨_ | next, completed⟩ <;> rfl

theorem startRuns_firing (origin : RunOrigin) (runs : List (List Action)) :
    s.firing.startRuns origin runs
      = ((s.startRuns origin runs).1.firing, (s.startRuns origin runs).2) := by
  induction runs generalizing s with
  | nil => rfl
  | cons actions rest ih =>
      have hstart : s.firing.startRun origin actions = (s.startRun origin actions).firing := rfl
      rw [startRuns_cons, startRuns_cons, hstart, ih]
      rfl

theorem firstSteps_firing (ids : List RunId) :
    s.firing.firstSteps ids = ((s.firstSteps ids).1.firing, (s.firstSteps ids).2) := by
  induction ids generalizing s with
  | nil => rfl
  | cons run rest ih => rw [firstSteps_cons, firstSteps_cons, runStep_firing, ih]

theorem dispatch_firing (origin : RunOrigin) :
    s.firing.dispatch origin = ((s.dispatch origin).1.firing, (s.dispatch origin).2) := by
  have hplan' : s.firing.program.plan origin s.firing.isPlaying
      = s.program.plan origin s.isPlaying := rfl
  cases hplan : s.program.plan origin s.isPlaying with
  | ignore reason => rw [dispatch_of_ignore hplan, dispatch_of_ignore (hplan'.trans hplan)]
  | start runs =>
      have hstart : s.firing.startAll origin runs
          = ((s.startAll origin runs).1.firing, (s.startAll origin runs).2) :=
        startRuns_firing { s with history := s.history.push (.capture s.sprite) } origin runs
      rw [dispatch_of_start hplan, dispatch_of_start (hplan'.trans hplan), hstart,
        firstSteps_firing]
      rfl

theorem load_firing (program : Program) :
    s.firing.load program = ((s.load program).1.firing, (s.load program).2) := by
  unfold load
  cases program.clicked with
  | none => rfl
  | some action => exact congrArg (·, _) (perform_firing { s with program } action)

theorem startDemo_firing :
    startDemo.on s.firing = ((startDemo.on s).1.firing, (startDemo.on s).2) := by
  have hdemo : s.firing.demo = s.demo := rfl
  cases hopen : s.demo.isOpen with
  | false => rw [startDemo_of_closed hopen, startDemo_of_closed (hdemo ▸ hopen)]
  | true =>
      cases hwalking : s.demo.isAnimating with
      | true =>
          rw [startDemo_of_walking hopen hwalking,
            startDemo_of_walking (hdemo ▸ hopen) (hdemo ▸ hwalking)]
      | false =>
          rw [startDemo_eq hopen hwalking, startDemo_eq (hdemo ▸ hopen) (hdemo ▸ hwalking)]
          rfl

end Firing

/-! ## Undoing and resetting -/

section Races

variable {s : Stage}

/-- Nothing is cancelled while nothing runs. -/
theorem cancelRuns_of_idle (h : Continued s []) (hidle : s.isPlaying = false) :
    s.cancelRuns = (s, []) := by
  have hruns : s.runs.runs = [] := by simpa [isPlaying, RunTable.isPlaying] using hidle
  have hsteps : s.agenda.cancel Timer.isStep = s.agenda := by
    have hnone : ∀ e ∈ s.agenda.entries, e.timer.isStep = false := by
      intro e he
      rw [← Bool.not_eq_true]
      intro hstep
      rw [h.isPlaying_iff.2 ⟨e, he, hstep⟩] at hidle
      cases hidle
    rw [Agenda.cancel, List.filter_eq_self.2 fun e he => by simp [hnone e he]]
  have htable : s.runs.cancelAll = ([], s.runs) := by
    rw [RunTable.cancelAll, hruns, List.map_nil, ← hruns]
  unfold cancelRuns
  rw [htable, hsteps]
  rfl

theorem undo_firing (h : Continued s []) (hpolicy : s.config.stalePolicy = .drop)
    (hrace : (Operation.input .undo).races s = false) :
    s.firing.undo = (s.undo.1.firing, s.undo.2) := by
  rcases s.undo_cases with ⟨hnil, heq⟩ | ⟨newest, rest, hcons, heq⟩
  · rcases s.firing.undo_cases with ⟨-, heq'⟩ | ⟨_, _, hcons', -⟩
    · rw [heq, heq']
    · cases hnil.symm.trans hcons'
  · rcases s.firing.undo_cases with ⟨hnil', -⟩ | ⟨newest', rest', hcons', heq'⟩
    · cases hcons.symm.trans hnil'
    · obtain ⟨rfl, rfl⟩ := List.cons.inj (hcons.symm.trans hcons')
      have hidle : s.isPlaying = false := by simpa [Operation.races, hcons] using hrace
      have hbefore : s.beforeUndo = (s, []) := by
        rw [beforeUndo, if_pos hpolicy, cancelRuns_of_idle h hidle]
      have hbefore' : s.firing.beforeUndo = (s.firing, []) := rfl
      rw [heq, heq', hbefore, hbefore']
      rfl

theorem reset_firing (hrace : (Operation.input .reset).races s = false) :
    s.firing.reset = (s.reset.1.firing, s.reset.2) := by
  have hnone : ∀ e ∈ s.cancelRuns.1.agenda.entries, e.timer.isClear = false := by
    intro e he
    simp only [Operation.races, Agenda.any, List.any_eq_false, Bool.not_eq_true] at hrace
    exact hrace e (Agenda.mem_cancel.1 he).1
  have hcancel : s.cancelRuns.1.agenda.cancel Timer.isClear = s.cancelRuns.1.agenda := by
    rw [Agenda.cancel, List.filter_eq_self.2 fun e he => by simp [hnone e he]]
  have hagenda : s.reset.1.agenda = s.cancelRuns.1.agenda := by
    rcases s.reset_agenda with heq | heq
    · rw [heq, hcancel]
    · exact heq
  have hreset : s.reset.1 = { s.cancelRuns.1 with
      agenda := s.reset.1.agenda, sprite := s.sprite.reset, history := s.history.clear } := rfl
  rw [hreset, hagenda]
  rfl

/-- An input that races with nothing has the same answer whether stale timers are dropped or fire. -/
theorem handle_firing (h : Continued s []) (hpolicy : s.config.stalePolicy = .drop)
    {input : StageInput} (hrace : (Operation.input input).races s = false) :
    s.firing.handle input = ((s.handle input).1.firing, (s.handle input).2) := by
  cases horigin : input.origin? with
  | some origin =>
      rw [handle_of_origin horigin, handle_of_origin horigin]
      exact congrArg accepted (s.dispatch_firing origin)
  | none =>
      cases input with
      | undo => exact congrArg accepted (undo_firing h hpolicy hrace)
      | reset => exact congrArg accepted (reset_firing hrace)
      | clicked descriptor =>
          rw [handle_clicked, handle_clicked]
          cases Action.ofDescriptor descriptor with
          | error cause => rfl
          | ok action => exact congrArg (·, _) (s.perform_firing action)
      | demoStart => exact s.startDemo_firing
      | keyDown key =>
          cases key with
          | space => cases horigin
          | other code => rfl
      | spriteClicked | flagClicked | runAll => cases horigin
      | pointerMoved _ | spriteCentre _ | viewportResized _ | demoOpen | demoClose => rfl

end Races

/-! ## Letting time pass -/

section Passage

variable {s s' : Stage} {target : Instant} {events : List StageEvent}

/-- A timer that is not dropped does the same under both policies. -/
theorem fire_firing {timer : Timer} (hkept : (s.fire timer).2.any (·.isDrop) = false) :
    s.firing.fire timer = ((s.fire timer).1.firing, (s.fire timer).2) := by
  cases timer with
  | step run index => exact s.runStep_firing run index
  | clear cell version =>
      have hfiring : s.firing.fireClear cell version
          = ({ s.firing with sprite := s.sprite.clear cell }, [.cleared cell]) :=
        if_pos (Or.inr rfl)
      rcases s.fireClear_cases cell version with heq | heq
      · rw [fire, fire, hfiring, heq]
        rfl
      · rw [fire, heq] at hkept
        cases hkept
  | demoTick session =>
      by_cases hlive : s.demo.isAnimating ∧ session = s.demo.session
      · simp [fire, fireDemoTick, firing, hlive, scheduleAfter]
      · simp [fire, fireDemoTick, firing, hlive]

theorem fireNext?_firing (h : s.fireNext? target = some (s', events))
    (hkept : events.any (·.isDrop) = false) :
    s.firing.fireNext? target = some (s'.firing, events) := by
  obtain ⟨entry, rest, hentries, hdue, heq⟩ := fireNext?_eq_some.1 h
  refine fireNext?_eq_some.2 ⟨entry, rest, hentries, hdue, ?_⟩
  have harrive : s.firing.arrive entry rest = (s.arrive entry rest).firing := rfl
  rw [harrive, fire_firing (by rwa [← heq]), ← heq]

theorem fireNext?_firing_of_none (h : s.fireNext? target = none) :
    s.firing.fireNext? target = none := by
  rw [fireNext?_eq_none] at h ⊢
  exact h

theorem drain_firing {fuel : Nat} (h : s.drain target fuel = some (s', events))
    (hkept : events.any (·.isDrop) = false) :
    s.firing.drain target fuel = some (s'.firing, events) := by
  induction fuel generalizing s events with
  | zero =>
      cases hfire : s.fireNext? target with
      | none =>
          rw [drain_of_none hfire] at h
          cases h
          exact drain_of_none (fireNext?_firing_of_none hfire) 0
      | some first =>
          rw [drain_zero hfire] at h
          cases h
  | succ fuel ih =>
      cases hfire : s.fireNext? target with
      | none =>
          rw [drain_of_none hfire] at h
          cases h
          exact drain_of_none (fireNext?_firing_of_none hfire) _
      | some first =>
          rw [drain_succ hfire, Option.map_eq_some_iff] at h
          obtain ⟨⟨last, later⟩, hlater, heq⟩ := h
          cases heq
          simp only [List.any_append, Bool.or_eq_false_iff] at hkept
          rw [drain_succ (fireNext?_firing hfire hkept.1), ih hlater hkept.2]
          rfl

theorem advanceTo?_firing (h : s.advanceTo? target = some (s', events))
    (hkept : events.any (·.isDrop) = false) :
    s.firing.advanceTo? target = some (s'.firing, events) := by
  rw [advanceTo?_eq, Option.map_eq_some_iff] at h
  obtain ⟨⟨mid, told⟩, hdrain, heq⟩ := h
  cases heq
  have hwork : ∀ bound, s.firing.workUntil bound = s.workUntil bound := fun _ => rfl
  rw [advanceTo?_eq, hwork, drain_firing hdrain hkept]
  rfl

theorem settleWithin_firing {fuel : Nat} (h : s.settleWithin fuel = some (s', events))
    (hkept : events.any (·.isDrop) = false) :
    s.firing.settleWithin fuel = some (s'.firing, events) := by
  induction fuel generalizing s events with
  | zero =>
      by_cases hsettled : s.isSettled = true
      · have hsettled' : s.firing.isSettled = true := hsettled
        rw [settleWithin_of_isSettled hsettled] at h
        cases h
        exact settleWithin_of_isSettled hsettled' 0
      · obtain ⟨entry, rest, hentries⟩ := exists_entry hsettled
        rw [settleWithin_zero hsettled hentries] at h
        cases h
  | succ fuel ih =>
      by_cases hsettled : s.isSettled = true
      · have hsettled' : s.firing.isSettled = true := hsettled
        rw [settleWithin_of_isSettled hsettled] at h
        cases h
        exact settleWithin_of_isSettled hsettled' _
      · have hunsettled' : ¬ s.firing.isSettled = true := hsettled
        obtain ⟨entry, rest, hentries⟩ := exists_entry hsettled
        have hentries' : s.firing.agenda.entries = entry :: rest := hentries
        rw [settleWithin_succ hsettled hentries, Option.bind_eq_some_iff] at h
        obtain ⟨⟨mid, first⟩, hadvance, hrest⟩ := h
        obtain ⟨⟨last, later⟩, hlater, heq⟩ := Option.map_eq_some_iff.1 hrest
        cases heq
        simp only [List.any_append, Bool.or_eq_false_iff] at hkept
        rw [settleWithin_succ hunsettled' hentries', advanceTo?_firing hadvance hkept.1]
        exact Option.map_eq_some_iff.2 ⟨_, ih hlater hkept.2, rfl⟩

end Passage

/-! ## Rows of operations -/

section Rows

variable {s s' : Stage} {operation : Operation} {ops : List Operation} {records : List Record}

/-- An operation that races with nothing and drops nothing does the same under both policies. -/
theorem operate?_firing {answer : Except StageError (List StageEvent)} (h : Continued s [])
    (hpolicy : s.config.stalePolicy = .drop) (hrace : operation.races s = false)
    (hop : s.operate? operation = some (s', answer))
    (hkept : ∀ events, answer = .ok events → events.any (·.isDrop) = false) :
    s.firing.operate? operation = some (s'.firing, answer) := by
  cases operation with
  | load program =>
      cases hop
      rw [operate?, load_firing]
      rfl
  | input input =>
      have hhandle : s.handle input = (s', answer) := Option.some.inj hop
      rw [operate?, handle_firing h hpolicy hrace, hhandle]
  | tick _ | advanceTo _ =>
      obtain ⟨_, hadvance, rfl⟩ := map_accepted_eq_some.1 hop
      exact map_accepted_eq_some.2 ⟨_, advanceTo?_firing hadvance (hkept _ rfl), rfl⟩
  | settle =>
      obtain ⟨_, hsettle, rfl⟩ := map_accepted_eq_some.1 hop
      exact map_accepted_eq_some.2 ⟨_, settleWithin_firing hsettle (hkept _ rfl), rfl⟩

end Rows

end Stage

/-- On every stage that can be reached a row of operations that races with nothing and drops nothing
    has the same answers under both policies. -/
theorem Reachable.operateAll_firing {s s' : Stage} {ops : List Operation} {records : List Record}
    (h : Reachable s) (hpolicy : s.config.stalePolicy = .drop)
    (hrow : s.operateAll? ops = some (s', records)) (hrace : s.raceFree ops = true)
    (hkept : ∀ r ∈ records, r.tellsDrop = false) :
    s.firing.operateAll? ops = some (s'.firing, records) := by
  induction ops generalizing s records with
  | nil =>
      cases hrow
      rfl
  | cons operation ops ih =>
      obtain ⟨mid, answer, rest, hop, hrest, rfl⟩ := Stage.operateAll?_cons_eq_some.1 hrow
      simp only [Stage.raceFree, hop, Option.all_some, Bool.and_eq_true,
        Bool.not_eq_true'] at hrace
      obtain ⟨hfirst, hlater⟩ := List.forall_mem_cons.1 hkept
      have hnext := Stage.operate?_firing h.continued hpolicy hrace.1 hop fun events heq => by
        simpa [Record.tellsDrop, heq] using hfirst
      have hmid : mid.config.stalePolicy = .drop := by rw [Stage.operate?_config hop, hpolicy]
      exact Stage.operateAll?_cons_eq_some.2
        ⟨_, answer, rest, hnext, ih (h.operate hop) hmid hrest hrace.2 hlater, rfl⟩

/-- Settings under which stale timers fire are as good as those under which they are dropped. -/
theorem Stage.IsNew.firing {config : StageConfig} {start : Stage} (h : start.IsNew config) :
    start.firing.IsNew (config.withStalePolicy .fire) := by
  obtain ⟨hfaultless, program, generator, hseed, rfl⟩ := h
  exact ⟨hfaultless, program, generator, hseed, rfl⟩

/-- A stage is made and goes through a row of operations under the policy that drops stale timers. If
    no event tells that one was dropped, no undo has something to put back while a run is under way,
    and no reset comes while a clearing is pending, then under the other policy the same operations
    have the same answers at the same instants, and lead to the same stage but for the policy. -/
theorem Stage.IsNew.policies_agree {config : StageConfig} {start s : Stage} {ops : List Operation}
    {records : List Record} (h : start.IsNew config) (hpolicy : config.stalePolicy = .drop)
    (hrow : start.operateAll? ops = some (s, records)) (hrace : start.raceFree ops = true)
    (hkept : ∀ r ∈ records, r.tellsDrop = false) :
    start.firing.IsNew (config.withStalePolicy .fire) ∧
      start.firing.operateAll? ops = some (s.firing, records) := by
  have hdrop : start.config.stalePolicy = .drop := by
    obtain ⟨-, program, generator, -, rfl⟩ := h
    exact hpolicy
  exact ⟨h.firing, (Reachable.new h).operateAll_firing hdrop hrow hrace hkept⟩

/-- A glide runs and its tag is cleared; then it is undone, and the stage is reset. -/
theorem policies_agree_after_rest :
    let start := Stage.new ⟨[[.trigger .flagClicked, .move 10, .glide 5 5 20]], none⟩
    let ops := [.input .flagClicked, .input .flagClicked, .settle, .input .undo, .input .reset]
    ∃ s records, start.operateAll? ops = some (s, records) ∧ start.raceFree ops = true ∧
      (∀ r ∈ records, r.tellsDrop = false) ∧ s.sprite.version .glide = 3 ∧
      start.firing.operateAll? ops = some (s.firing, records) := by
  intro start ops
  have hrun : (start.operateAll? ops).map (fun last =>
      (last.2.any (·.tellsDrop), last.1.sprite.version .glide)) = some (false, 3) := by
    decide +kernel
  obtain ⟨⟨s, records⟩, hrow, hlast⟩ := Option.map_eq_some_iff.1 hrun
  simp only [Prod.mk.injEq, List.any_eq_false, Bool.not_eq_true] at hlast
  obtain ⟨hkept, hversion⟩ := hlast
  have hrace : start.raceFree ops = true := by decide +kernel
  have hnew : start.IsNew {} := Stage.isNew_new _
  exact ⟨s, records, hrow, hrace, hkept, hversion,
    (hnew.policies_agree rfl hrow hrace hkept).2⟩

end SpriteStage

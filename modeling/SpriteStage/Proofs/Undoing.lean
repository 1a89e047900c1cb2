import SpriteStage.Proofs.Continuations
import SpriteStage.Proofs.Operations
import SpriteStage.Proofs.Versions
set_option autoImplicit false

/-! # Taking back

An undo goes back to the latest start of runs that is left to be undone. Which one that is can be
told from the operations alone: an operation that starts runs adds the stage before it, an undo
takes the latest one away, a reset takes all, and the greatest depth bounds how many are kept
(`Stage.undoPoints`). The history remembers exactly the sprites of these stages
(`Stage.operateAll?_memories`).

Unless stale timers fire, an undo leaves nothing behind that could touch what it has put back: the
steps are cancelled, and the clearings of bubbles that are still scheduled are of earlier versions
(`Stage.Rests`). And while something runs there is something to undo (`Remembered`). -/

namespace SpriteStage

/-! ## What is left to be undone -/

namespace Stage

/-- What is left to be undone after an operation, the latest first. An operation that starts runs
    adds the present, and what the depth does not allow falls out; an undo takes the latest away,
    and a reset all. -/
def remember {α : Type} (s : Stage) (present : α) (past : List α) : Operation → List α
  | .input .undo => past.tail
  | .input .reset => []
  | operation =>
    if (s.announced operation).isEmpty then past
    else (present :: past).take (max s.config.historyDepth 1)

/-- The stages that undoing goes back to after some operations, the latest first. -/
def undoPoints (s : Stage) (points : List Stage) : List Operation → List Stage
  | [] => points
  | operation :: rest =>
    match s.operate? operation with
    | none => points
    | some (mid, .error _) => mid.undoPoints points rest
    | some (mid, .ok _) => mid.undoPoints (s.remember s points operation) rest

theorem map_remember {α β : Type} (f : α → β) (s : Stage) (present : α) (past : List α)
    (operation : Operation) :
    (s.remember present past operation).map f = s.remember (f present) (past.map f) operation := by
  unfold remember
  split
  · exact List.map_tail
  · rfl
  · split
    · rfl
    · rw [List.map_take, List.map_cons]

/-! ## What the history remembers -/

@[simp] theorem fire_history (s : Stage) (timer : Timer) :
    (s.fire timer).1.history = s.history := by
  cases timer with
  | step run index => exact s.runStep_history run index
  | clear cell version => rcases s.fireClear_cases cell version with h | h <;> simp [fire, h]
  | demoTick session =>
      rcases s.fireDemoTick_cases session with ⟨-, h⟩ | ⟨-, -, h⟩ <;>
        simp [fire, h, demoTick, scheduleAfter]

/-- Runs that are started are announced. -/
theorem announce_isEmpty_of_start {s : Stage} {origin : RunOrigin} {runs : List (List Action)}
    (hplan : s.program.plan origin s.isPlaying = .start runs) :
    (s.announce origin).isEmpty = false := by
  have hruns := (Program.startsSomething_of_plan hplan).1
  cases runs with
  | nil => cases hruns
  | cons actions rest => simp [announce, hplan, announceRuns]

theorem dispatch_history (s : Stage) (origin : RunOrigin) :
    (s.dispatch origin).1.history
      = if (s.announce origin).isEmpty then s.history else s.history.push (.capture s.sprite) := by
  cases hplan : s.program.plan origin s.isPlaying with
  | ignore reason => simp [dispatch_of_ignore hplan, announce, hplan]
  | start runs =>
      rw [dispatch_of_start hplan, firstSteps_history, startAll_eq,
        announce_isEmpty_of_start hplan]
      rfl

theorem undo_history (s : Stage) :
    s.undo.1.history = { s.history with memories := s.history.memories.tail } := by
  rcases s.undo_cases with ⟨hnone, heq⟩ | ⟨newest, rest, hmemories, heq⟩
  · rw [heq, hnone]
    cases hhistory : s.history with
    | mk memories maxDepth =>
        rw [hhistory] at hnone
        simp_all
  · rw [heq, hmemories]
    rfl

theorem Answers.history_eq {s s' : Stage} {input : StageInput} {events : List StageEvent}
    (ha : s.Answers input s' events) (hdepth : s.history.maxDepth = max s.config.historyDepth 1) :
    s'.history = { s.history with
      memories := s.remember (.capture s.sprite) s.history.memories (.input input) } := by
  cases ha with
  | @click _ origin horigin =>
      have hremember : s.remember (.capture s.sprite) s.history.memories (.input input)
          = if (s.announce origin).isEmpty then s.history.memories
            else (.capture s.sprite :: s.history.memories).take (max s.config.historyDepth 1) := by
        have hannounced : s.announced (.input input) = s.announce origin := by
          rw [announced, announceInput, horigin, Option.elim_some]
        rw [← hannounced]
        cases input <;> first | rfl | cases horigin
      rw [hremember, dispatch_history]
      split
      · rfl
      · rw [← hdepth]
        rfl
  | undo => exact s.undo_history
  | @once _ action _ =>
      rw [perform_history]
      rfl
  | reset | otherKey _ | point _ | calibrate _ | resize _ | openDemo | closeDemo
  | startDemo _ _ | walking _ _ => rfl

/-- The history remembers what is left to be undone. -/
theorem operate?_history {s s' : Stage} {operation : Operation}
    {answer : Except StageError (List StageEvent)} (h : s.operate? operation = some (s', answer))
    (hdepth : s.history.maxDepth = max s.config.historyDepth 1) :
    s'.history = { s.history with
      memories := s.remember (.capture s.sprite) s.history.memories operation } := by
  have hsame : s.history = { s.history with memories := s.history.memories } := rfl
  cases hwait : operation.isWait with
  | true =>
      have hhistory : s'.history = s.history := by
        refine passing_induction (P := fun x => x.history = s.history) ?_ ?_ hwait h rfl
        · exact fun _ hx => (fire_history _ _).trans hx
        · exact fun _ _ hx => hx
      rw [hhistory]
      cases operation with
      | load _ | input _ => cases hwait
      | tick _ | advanceTo _ | settle => rfl
  | false =>
      cases operation with
      | tick _ | advanceTo _ | settle => cases hwait
      | load program =>
          cases h
          have hhistory : (s.load program).1.history = s.history := by
            unfold load
            cases program.clicked <;> simp [performOnce]
          exact hhistory
      | input input =>
          have hhandle : s.handle input = (s', answer) := Option.some.inj h
          cases answer with
          | error e =>
              obtain ⟨rfl, ⟨_, _, rfl, -⟩ | ⟨rfl, -⟩⟩ := refused_cases hhandle <;> rfl
          | ok events => exact (answers_of_handle hhandle).history_eq hdepth

/-- After a row of operations the history remembers the sprites of the stages that undoing goes back
    to. -/
theorem operateAll?_memories {s s' : Stage} {ops : List Operation} {records : List Record}
    {points : List Stage} (h : s.operateAll? ops = some (s', records))
    (hdepth : s.history.maxDepth = max s.config.historyDepth 1)
    (hpoints : s.history.memories = points.map (.capture ·.sprite)) :
    s'.history.memories = (s.undoPoints points ops).map (.capture ·.sprite) := by
  induction ops generalizing s points records with
  | nil =>
      cases h
      exact hpoints
  | cons operation rest ih =>
      obtain ⟨mid, answer, later, hanswer, hrest, -⟩ := operateAll?_cons_eq_some.1 h
      rw [undoPoints]
      cases answer with
      | error e =>
          simp only [hanswer]
          obtain ⟨rfl, -⟩ := operate?_refused hanswer
          exact ih hrest hdepth hpoints
      | ok events =>
          have hhistory := operate?_history hanswer hdepth
          simp only [hanswer]
          refine ih hrest ?_ ?_
          · rw [hhistory, operate?_config hanswer]
            exact hdepth
          · rw [hhistory, map_remember, hpoints]

/-! ## While something runs -/

end Stage

/-- Unless stale timers fire, there is something to undo while something runs. -/
structure Remembered (s : Stage) : Prop where
  maxDepth : s.history.maxDepth = max s.config.historyDepth 1
  playing : s.config.stalePolicy = .drop → s.isPlaying = true → s.history.memories ≠ []

namespace Remembered

variable {s s' : Stage}

theorem of_eq (h : Remembered s) (hconfig : s'.config = s.config)
    (hdepth : s'.history.maxDepth = s.history.maxDepth)
    (hplaying : s.config.stalePolicy = .drop → s'.isPlaying = true →
      s'.history.memories ≠ []) : Remembered s' where
  maxDepth := by rw [hconfig, hdepth]; exact h.maxDepth
  playing := by rw [hconfig]; exact hplaying

end Remembered

namespace Stage

/-- A step is made of a run that is under way, if it is made. -/
theorem isPlaying_of_runStep {s : Stage} {run : RunId} {index : Nat}
    (hplaying : (s.runStep run index).1.isPlaying = true) : s.isPlaying = true := by
  rcases s.runStep_cases run index with ⟨heq, -⟩ | ⟨r, hi, hr, -⟩
  · rwa [heq] at hplaying
  · have hmem := (RunTable.mem_of_find? hr).1
    unfold isPlaying RunTable.isPlaying
    cases hruns : s.runs.runs with
    | nil => simp [hruns] at hmem
    | cons _ _ => rfl

theorem isPlaying_of_fire {s : Stage} {timer : Timer}
    (hplaying : (s.fire timer).1.isPlaying = true) : s.isPlaying = true := by
  cases timer with
  | step run index => exact isPlaying_of_runStep hplaying
  | clear cell version =>
      rcases s.fireClear_cases cell version with heq | heq <;> rwa [fire, heq] at hplaying
  | demoTick session =>
      rcases s.fireDemoTick_cases session with ⟨-, heq⟩ | ⟨-, -, heq⟩ <;>
        rwa [fire, heq] at hplaying

theorem Moves.remembered {s s' : Stage} {events : List StageEvent} {started : List Announcement}
    (m : Moves s events started s') (h : Remembered s) : Remembered s' := by
  have hconfig := m.config_eq
  cases m with
  | click origin =>
      have hhistory := s.dispatch_history origin
      cases hplan : s.program.plan origin s.isPlaying with
      | ignore reason => rwa [dispatch_of_ignore hplan]
      | start runs =>
          -- the history keeps at least what was remembered just now
          have hannounced : (s.announce origin).isEmpty = false := announce_isEmpty_of_start hplan
          rw [hannounced] at hhistory
          refine h.of_eq hconfig (by rw [hhistory]; rfl) fun _ _ => ?_
          rw [hhistory]
          have hpos : 0 < s.history.maxDepth := by
            rw [h.maxDepth]
            omega
          simp [UndoHistory.push, Nat.ne_of_gt hpos]
  | undo =>
      rcases s.undo_cases with ⟨-, heq⟩ | ⟨newest, rest, -, heq⟩
      · rwa [heq]
      · rw [heq] at hconfig ⊢
        refine h.of_eq hconfig rfl fun hpolicy hplaying => ?_
        -- the runs are cancelled, so nothing runs
        have hbefore : s.beforeUndo.1 = s.cancelRuns.1 := by rw [beforeUndo, if_pos hpolicy]
        have hruns : s.beforeUndo.1.isPlaying = true := hplaying
        rw [hbefore] at hruns
        cases hruns
  | reset => exact h.of_eq hconfig rfl fun _ hplaying => absurd hplaying Bool.false_ne_true
  | fire hentries =>
      refine h.of_eq hconfig (by rw [fire_history]; rfl) fun hpolicy hplaying => ?_
      rw [fire_history]
      have harrived : (s.arrive _ _).isPlaying = true := isPlaying_of_fire hplaying
      exact h.playing hpolicy harrived
  | once action =>
      refine h.of_eq hconfig (by rw [perform_history]) fun hpolicy hplaying => ?_
      rw [perform_history]
      rw [isPlaying, perform_runs] at hplaying
      exact h.playing hpolicy hplaying
  | nothing | replace _ | point _ | calibrate _ | resize _ | openDemo | closeDemo | startDemo _ _
  | wait _ _ => exact h.of_eq hconfig rfl h.playing

theorem IsNew.config_eq {config : StageConfig} {s : Stage} (h : s.IsNew config) :
    s.config = config := by
  obtain ⟨-, program, generator, -, rfl⟩ := h
  rfl

theorem IsNew.memories_eq {config : StageConfig} {s : Stage} (h : s.IsNew config) :
    s.history.memories = [] := by
  obtain ⟨-, program, generator, -, rfl⟩ := h
  rfl

theorem IsNew.remembered {config : StageConfig} {s : Stage} (h : s.IsNew config) :
    Remembered s := by
  obtain ⟨-, program, generator, -, rfl⟩ := h
  exact ⟨rfl, nofun⟩

end Stage

theorem Reachable.remembered {s : Stage} (h : Reachable s) : Remembered s :=
  h.induction (fun _ _ hnew => hnew.remembered) fun _ _ _ _ hs hmove => hmove.remembered hs

/-! ## After an undo -/

namespace Stage

/-- Nothing is scheduled that could touch the transform or the bubble. -/
structure Rests (s : Stage) : Prop where
  policy : s.config.stalePolicy = .drop
  stepless : ∀ e ∈ s.agenda.entries, e.timer.isStep = false
  stale : ∀ e ∈ s.agenda.entries, ∀ version, e.timer = .clear .speech version →
    version < s.sprite.speech.version

namespace Rests

variable {s s' : Stage}

theorem frame (h : Rests s) (hconfig : s'.config = s.config)
    (hentries : ∀ e ∈ s'.agenda.entries, e ∈ s.agenda.entries ∨ e.timer.isDemoTick = true)
    (hspeech : s'.sprite.speech = s.sprite.speech) : Rests s' where
  policy := hconfig ▸ h.policy
  stepless e he := by
    rcases hentries e he with hold | htick
    · exact h.stepless e hold
    · cases htimer : e.timer <;> simp_all [Timer.isStep, Timer.isDemoTick]
  stale e he version htimer := by
    rw [hspeech]
    rcases hentries e he with hold | htick
    · exact h.stale e hold version htimer
    · rw [htimer] at htick
      cases htick

/-- What fires at rest leaves the transform and the bubble alone, and the stage at rest. -/
theorem fire (h : Rests s) {entry : Appointment} {rest : List Appointment}
    (hentries : s.agenda.entries = entry :: rest) :
    Rests ((s.arrive entry rest).fire entry.timer).1 ∧
      ((s.arrive entry rest).fire entry.timer).1.sprite.transform = s.sprite.transform ∧
      ((s.arrive entry rest).fire entry.timer).1.sprite.speech = s.sprite.speech := by
  have hfirst : entry ∈ s.agenda.entries := hentries ▸ List.mem_cons_self
  have hrest : ∀ e ∈ rest, e ∈ s.agenda.entries := fun e he =>
    hentries ▸ List.mem_cons_of_mem _ he
  have hkept : ∀ e ∈ (s.arrive entry rest).agenda.entries,
      e ∈ s.agenda.entries ∨ e.timer.isDemoTick = true := fun e he => Or.inl (hrest e he)
  cases htimer : entry.timer with
  | step run index =>
      have hstep := h.stepless entry hfirst
      rw [htimer] at hstep
      cases hstep
  | clear cell version =>
      cases cell with
      | glide =>
          rcases (s.arrive entry rest).fireClear_cases .glide version with heq | heq <;>
            rw [Stage.fire, heq]
          · exact ⟨h.frame rfl hkept rfl, rfl, rfl⟩
          · exact ⟨h.frame rfl hkept rfl, rfl, rfl⟩
      | speech =>
          -- the clearing is stale, and stale ones are dropped
          have hstale := h.stale entry hfirst version htimer
          have hdropped : ((s.arrive entry rest).fireClear .speech version).1
              = s.arrive entry rest := by
            unfold fireClear
            rw [if_neg]
            rintro (heq | hfires)
            · exact Nat.ne_of_lt hstale heq
            · rw [show (s.arrive entry rest).config.stalePolicy = .drop from h.policy] at hfires
              cases hfires
          rw [Stage.fire, hdropped]
          exact ⟨h.frame rfl hkept rfl, rfl, rfl⟩
  | demoTick session =>
      rcases (s.arrive entry rest).fireDemoTick_cases session with ⟨-, heq⟩ | ⟨-, -, heq⟩ <;>
        rw [Stage.fire, heq]
      · exact ⟨h.frame rfl hkept rfl, rfl, rfl⟩
      · refine ⟨h.frame rfl (fun e he => ?_) rfl, rfl, rfl⟩
        rcases Agenda.mem_schedule.1 he with rfl | he
        · exact Or.inr rfl
        · exact hkept e he

/-- However much time passes, the transform and the bubble stay as they are. -/
theorem operateAll? (h : Rests s) {waits : List Operation} {records : List Record}
    (hwaits : ∀ operation ∈ waits, operation.isWait = true)
    (hops : s.operateAll? waits = some (s', records)) :
    s'.sprite.transform = s.sprite.transform ∧ s'.sprite.speech = s.sprite.speech := by
  have hkept := operateAll?_induction (P := fun x => Rests x ∧
    x.sprite.transform = s.sprite.transform ∧ x.sprite.speech = s.sprite.speech) ?_ hops
      ⟨h, rfl, rfl⟩
  · exact hkept.2
  · intro operation hmem x x' events hx hop
    refine passing_induction (P := fun x => Rests x ∧
      x.sprite.transform = s.sprite.transform ∧ x.sprite.speech = s.sprite.speech) ?_ ?_
        (hwaits operation hmem) hop hx
    · intro y entry rest hentries ⟨hrests, htransform, hspeech⟩
      obtain ⟨hfired, htransform', hspeech'⟩ := hrests.fire hentries
      exact ⟨hfired, htransform'.trans htransform, hspeech'.trans hspeech⟩
    · intro y target _ _ ⟨hrests, hsprite⟩
      exact ⟨hrests.frame rfl (fun e he => Or.inl he) rfl, hsprite⟩

end Rests

end Stage

/-- Unless stale timers fire, an undo that puts something back leaves nothing behind. -/
theorem Reachable.rests_undo {s : Stage} (h : Reachable s) (hpolicy : s.config.stalePolicy = .drop)
    (hmemories : s.history.memories ≠ []) : s.undo.1.Rests := by
  rcases s.undo_cases with ⟨hnone, -⟩ | ⟨newest, rest, -, heq⟩
  · exact absurd hnone hmemories
  · have hbefore : s.beforeUndo.1 = s.cancelRuns.1 := by rw [Stage.beforeUndo, if_pos hpolicy]
    have hentries : s.undo.1.agenda = s.agenda.cancel Timer.isStep := by
      rw [heq, hbefore]
      rfl
    refine ⟨?_, ?_, ?_⟩
    · rw [heq, hbefore]
      exact hpolicy
    · rw [hentries]
      exact fun e he => (Agenda.mem_cancel.1 he).2
    · rw [hentries]
      intro e he version htimer
      have hdated := h.dated e (Agenda.mem_cancel.1 he).1 .speech version htimer
      rw [heq]
      exact Nat.lt_succ_of_le hdated

/-- After any row of operations on a new stage on which stale timers are dropped: while something
    runs there is something to undo. An undo with something to undo goes back to the stage before
    the latest start of runs that is left to be undone: it says of each run, in the order of their
    numbers, that it is cancelled, and shows transform and bubble as they were then. No run and no
    step is left, and however much time passes without another input, transform and bubble stay as
    they are. -/
theorem undo_takes_back {config : StageConfig} {start s : Stage} {ops : List Operation}
    {records : List Record} (hnew : start.IsNew config) (hpolicy : config.stalePolicy = .drop)
    (hops : start.operateAll? ops = some (s, records)) :
    (s.isPlaying = true → 1 ≤ s.history.depth) ∧
    (s.history.depth ≠ 0 → ∃ point rest s', start.undoPoints [] ops = point :: rest ∧
      s.handle .undo = (s',
        .ok (s.runs.runs.map (fun r => .runCancelled r.id r.step) ++ [.undone rest.length])) ∧
      (s.runs.runs.Pairwise fun a b => a.id < b.id) ∧
      s'.sprite.transform = point.sprite.transform ∧
      s'.sprite.speech.value = point.sprite.speech.value ∧
      s'.isPlaying = false ∧ (∀ e ∈ s'.agenda.entries, e.timer.isStep = false) ∧
      ∀ waits s'' records', (∀ operation ∈ waits, operation.isWait = true) →
        s'.operateAll? waits = some (s'', records') →
          s''.sprite.transform = s'.sprite.transform ∧ s''.sprite.speech = s'.sprite.speech) := by
  have hs : Reachable s := (Reachable.new hnew).operateAll hops
  have hdrop : s.config.stalePolicy = .drop := by
    have hconfig := Stage.operateAll?_induction (P := fun x => x.config = config)
      (fun _ _ _ _ _ hx hop => (Stage.operate?_config hop).trans hx) hops hnew.config_eq
    rw [hconfig]
    exact hpolicy
  have hmemories : s.history.memories = (start.undoPoints [] ops).map (.capture ·.sprite) :=
    Stage.operateAll?_memories hops hnew.remembered.maxDepth hnew.memories_eq
  refine ⟨fun hplaying => ?_, fun hdepth => ?_⟩
  · exact List.length_pos_iff.2 (hs.remembered.playing hdrop hplaying)
  · have hsome : s.history.memories ≠ [] := fun hnone => hdepth (by simp [UndoHistory.depth, hnone])
    rcases s.undo_cases with ⟨hnone, -⟩ | ⟨newest, older, hnewest, heq⟩
    · exact absurd hnone hsome
    · rw [hnewest] at hmemories
      obtain ⟨point, rest, hpoints, rfl, rfl⟩ := List.map_eq_cons_iff.1 hmemories.symm
      have hrests := hs.rests_undo hdrop hsome
      have hbefore : s.beforeUndo = s.cancelRuns := by rw [Stage.beforeUndo, if_pos hdrop]
      have hevents : s.undo.2 = s.runs.runs.map (fun r => .runCancelled r.id r.step)
          ++ [.undone rest.length] := by
        rw [heq, hbefore, List.length_map]
        simp [Stage.cancelRuns, RunTable.cancelAll, List.map_map, Function.comp_def]
      refine ⟨point, rest, s.undo.1, hpoints, by rw [← hevents]; rfl, hs.continued.ascending.sorted,
        by rw [heq]; rfl, by rw [heq]; rfl, by rw [heq, hbefore]; rfl, hrests.stepless, ?_⟩
      exact fun waits s'' records' hwaits hlater => hrests.operateAll? hwaits hlater

/-- The sprite moves, shows a bubble, and is clicked again before it moves a second time. An undo
    cancels both runs and goes back to where the sprite had moved once. -/
theorem undo_takes_back_second_click :
    let start := Stage.new ⟨[[.trigger .spriteClicked, .move 10, .speak "hi" .say (some 1000),
      .move 10]], none⟩
    ∃ s records s', start.operateAll? [.input .spriteClicked, .advanceTo 10, .input .spriteClicked]
        = some (s, records) ∧ s.isPlaying = true ∧ s.history.depth = 2 ∧
      s.handle .undo = (s', .ok [.runCancelled 1 (some 1), .runCancelled 2 (some 0), .undone 1]) ∧
      s'.sprite.transform.x = 10 ∧ s'.sprite.speech.value = ⟨"hi", 1000, false⟩ ∧
      ∀ s'' records', s'.operateAll? [.settle] = some (s'', records') →
        s''.sprite.speech = s'.sprite.speech := by
  intro start
  have hrun : (start.operateAll? [.input .spriteClicked, .advanceTo 10, .input .spriteClicked]).map
      (fun last => (last.1.isPlaying, last.1.history.depth,
        last.1.runs.runs.map fun r => (r.id, r.step)))
        = some (true, 2, [(1, some 1), (2, some 0)]) := by decide +kernel
  have hback : (start.undoPoints []
      [.input .spriteClicked, .advanceTo 10, .input .spriteClicked]).map
      (fun point => (point.sprite.transform.x, point.sprite.speech.value))
        = [(10, ⟨"hi", 1000, false⟩), (0, .silent)] := by decide +kernel
  obtain ⟨⟨s, records⟩, hops, hlast⟩ := Option.map_eq_some_iff.1 hrun
  simp only [Prod.mk.injEq] at hlast
  obtain ⟨hplaying, hdepth, hruns⟩ := hlast
  obtain ⟨-, hundo⟩ := undo_takes_back (Stage.isNew_new _) rfl hops
  obtain ⟨point, rest, s', hpoints, hhandle, -, htransform, hspeech, -, -, hwaits⟩ :=
    hundo (by rw [hdepth]; decide)
  rw [hpoints, List.map_cons, List.cons.injEq, Prod.mk.injEq] at hback
  obtain ⟨⟨hx, hsaid⟩, hrest⟩ := hback
  have hlength : rest.length = 1 := by simpa using congrArg List.length hrest
  have hevents := congrArg (List.map fun x => StageEvent.runCancelled x.1 x.2) hruns
  rw [List.map_map] at hevents
  refine ⟨s, records, s', hops, hplaying, hdepth, ?_, by rw [htransform, hx],
    by rw [hspeech, hsaid], fun s'' records' hsettle => ?_⟩
  · rw [hhandle, hlength]
    exact congrArg (fun cancelled => (s', Except.ok (cancelled ++ [.undone 1]))) hevents
  · exact (hwaits [.settle] s'' records' (by simp [Operation.isWait]) hsettle).2

end SpriteStage

import SpriteStage.Proofs.Chronicle
import SpriteStage.Proofs.DemoTicks
import SpriteStage.Proofs.WithoutDemo
set_option autoImplicit false

/-! # The events as a feed of changes

A `Digest` is what somebody knows of the stage who sees nothing but its events: which runs are under
way, how deep the history is, and what is to be seen of the demo apart from the places of the cats.
Noting event after event keeps the digest in step with the stage (`Stage.Moves.digest`).

What the digest leaves out is told as well, if not by its value: the sprite does not change without
an event that tells of it, and an operation without events leaves all but a few things as they were
(`Stage.Unspoken`). -/

namespace SpriteStage

/-! ## What the events tell -/

/-- What the events tell of the stage. -/
structure Digest where
  /-- The runs that were started and are not over. -/
  running : List RunId
  depth : Nat
  isOpen : Bool
  isAnimating : Bool
  directions : Int8 × Int8
deriving DecidableEq

namespace Digest

/-- Nothing was told yet. -/
def initial : Digest := ⟨[], 0, false, false, (1, -1)⟩

/-- Take note of an event. -/
def note (d : Digest) : StageEvent → Digest
  | .runStarted run _ _ => { d with running := d.running ++ [run] }
  | .runFinished run | .runCancelled run _ =>
    { d with running := d.running.filter fun id => decide (id ≠ run) }
  | .historyPushed depth | .undone depth => { d with depth }
  | .reset => { d with depth := 0 }
  | .demoOpened => { d with isOpen := true }
  | .demoClosed => { d with isOpen := false, isAnimating := false }
  | .demoStarted _ => { d with isAnimating := true }
  | .demoFlipped flip => { d with directions := flip.after }
  | .stepApplied _ _ _ | .actionApplied _ | .triggerIgnored _ _ | .cleared _
  | .staleTimerDropped _ => d

/-- Take note of some events, one after the other. -/
def noteAll (d : Digest) (events : List StageEvent) : Digest := events.foldl note d

theorem noteAll_cons (d : Digest) (event : StageEvent) (later : List StageEvent) :
    d.noteAll (event :: later) = (d.note event).noteAll later := rfl

theorem noteAll_append (d : Digest) (events later : List StageEvent) :
    d.noteAll (events ++ later) = (d.noteAll events).noteAll later := List.foldl_append

/-- Cancelling runs strikes them off. -/
theorem noteAll_cancelled (d : Digest) (runs : List (RunId × Option Nat)) :
    d.noteAll (runs.map fun r => .runCancelled r.1 r.2)
      = { d with running := d.running.filter fun id => decide (id ∉ runs.map (·.1)) } := by
  induction runs generalizing d with
  | nil =>
      rw [List.map_nil, List.filter_eq_self.2 (by simp)]
      rfl
  | cons r rest ih =>
      rw [List.map_cons, noteAll_cons, ih]
      simp only [note, List.filter_filter, List.map_cons, List.mem_cons, not_or, Digest.mk.injEq,
        and_self, and_true]
      apply List.filter_congr
      intro id _
      rw [Bool.eq_iff_iff]
      simp [and_comm]

end Digest

namespace Stage

/-- What the events are to tell of the stage. -/
def digest (s : Stage) : Digest where
  running := s.runs.ids
  depth := s.history.depth
  isOpen := s.demo.isOpen
  isAnimating := s.demo.isAnimating
  directions := s.demo.cats.directions

theorem digest_congr {s s' : Stage} (hruns : s'.runs.ids = s.runs.ids)
    (hhistory : s'.history = s.history) (hdemo : s'.demo = s.demo) : s'.digest = s.digest := by
  rw [digest, hruns, hhistory, hdemo]
  rfl

section Moves

variable {s s' : Stage}

theorem digest_perform (s : Stage) (action : Action) : (s.perform action).digest = s.digest :=
  digest_congr (by rw [perform_runs]) (s.perform_history action) (s.perform_demo action)

/-- A step of a run changes nothing that is digested, and its last step takes the run off. -/
theorem digest_runStep (s : Stage) (run : RunId) (index : Nat) :
    s.digest.noteAll (s.runStep run index).2 = (s.runStep run index).1.digest := by
  rcases s.runStep_cases run index with ⟨heq, -⟩ | ⟨r, hi, -, ⟨-, heq⟩ | ⟨-, heq⟩⟩
  · rw [heq]
    rfl
  · rw [heq]
    refine (digest_congr (s.runs.ids_moveTo run index) ?_ ?_).symm
    · exact s.perform_history _
    · exact s.perform_demo _
  · have hremoved : ({ s.perform r.actions[index] with
        runs := s.runs.remove run } : Stage).digest = s.digest.note (.runFinished run) := by
      simp only [digest, RunTable.ids_remove, perform_history, perform_demo]
      rfl
    rw [heq, hremoved]
    rfl

theorem digest_firstSteps (s : Stage) (ids : List RunId) :
    s.digest.noteAll (s.firstSteps ids).2 = (s.firstSteps ids).1.digest := by
  induction ids generalizing s with
  | nil => rfl
  | cons run rest ih => rw [firstSteps_cons, Digest.noteAll_append, digest_runStep, ih]

/-- Each run that is put on the table is told. -/
theorem digest_startRuns (s : Stage) (origin : RunOrigin) (runs : List (List Action)) :
    s.digest.noteAll (s.startRuns origin runs).2.2 = (s.startRuns origin runs).1.digest := by
  induction runs generalizing s with
  | nil => rfl
  | cons actions rest ih =>
      have hfirst : s.digest.note (.runStarted (s.runs.lastId + 1) origin actions.length)
          = (s.startRun origin actions).digest := by
        rw [digest, digest, startRun, RunTable.ids_start]
        rfl
      rw [startRuns_cons, Digest.noteAll_cons, hfirst]
      exact ih _

theorem digest_dispatch (s : Stage) (origin : RunOrigin) :
    s.digest.noteAll (s.dispatch origin).2 = (s.dispatch origin).1.digest := by
  cases hplan : s.program.plan origin s.isPlaying with
  | ignore reason =>
      rw [dispatch_of_ignore hplan]
      rfl
  | start runs =>
      have hpushed : s.digest.note (.historyPushed (s.history.push (.capture s.sprite)).depth)
          = ({ s with history := s.history.push (.capture s.sprite) } : Stage).digest := rfl
      rw [dispatch_of_start hplan, Digest.noteAll_append, Digest.noteAll_cons, hpushed, startAll,
        digest_startRuns, digest_firstSteps]

/-- Cancelling tells of every run. -/
theorem digest_cancelRuns (s : Stage) :
    s.digest.noteAll s.cancelRuns.2 = s.cancelRuns.1.digest := by
  have hevents : s.cancelRuns.2
      = (s.runs.runs.map fun r => (r.id, r.step)).map fun r => .runCancelled r.1 r.2 := rfl
  have hids : (s.runs.runs.map fun r => (r.id, r.step)).map (·.1) = s.runs.ids := List.map_map
  have hnone : s.runs.ids.filter (fun id => decide (id ∉ s.runs.ids)) = [] :=
    List.filter_eq_nil_iff.2 (by simp)
  rw [hevents, Digest.noteAll_cancelled, hids]
  simp only [digest, hnone]
  rfl

theorem digest_beforeUndo (s : Stage) :
    s.digest.noteAll s.beforeUndo.2 = s.beforeUndo.1.digest := by
  unfold beforeUndo
  split
  · exact s.digest_cancelRuns
  · rfl

theorem digest_undo (s : Stage) : s.digest.noteAll s.undo.2 = s.undo.1.digest := by
  rcases s.undo_cases with ⟨-, heq⟩ | ⟨newest, rest, -, heq⟩
  · rw [heq]
    rfl
  · rw [heq, Digest.noteAll_append, digest_beforeUndo]
    rfl

theorem digest_reset (s : Stage) : s.digest.noteAll s.reset.2 = s.reset.1.digest := by
  have hevents : s.reset.2 = s.cancelRuns.2 ++ [.reset] := rfl
  rw [hevents, Digest.noteAll_append, digest_cancelRuns]
  rfl

/-- The cats turn round when it is told, and at no other time. -/
theorem directions_step (d : Demo) :
    d.step.1.cats.directions = d.step.2.elim d.cats.directions (·.after) := by
  unfold Demo.step
  dsimp only
  split
  · split <;> rfl
  · rfl

theorem digest_fire (s : Stage) (timer : Timer) :
    s.digest.noteAll (s.fire timer).2 = (s.fire timer).1.digest := by
  cases timer with
  | step run index => exact s.digest_runStep run index
  | clear cell version =>
      rcases s.fireClear_cases cell version with heq | heq <;> rw [fire, heq] <;> rfl
  | demoTick session =>
      rcases s.fireDemoTick_cases session with ⟨-, heq⟩ | ⟨-, -, heq⟩
      · rw [fire, heq]
        rfl
      · have hdirections := directions_step s.demo
        rw [fire, heq]
        simp only [digest, demoTick, scheduleAfter, Demo.step_isOpen, Demo.step_isAnimating,
          hdirections]
        cases s.demo.step.2 <;> rfl

/-- Noting the events of a move keeps the digest in step with the stage. -/
theorem Moves.digest {events : List StageEvent} {started : List Announcement}
    (m : Moves s events started s') : s.digest.noteAll events = s'.digest := by
  cases m with
  | click origin => exact s.digest_dispatch origin
  | once action => exact (s.digest_perform action).symm
  | undo => exact s.digest_undo
  | reset => exact s.digest_reset
  | @fire entry rest _ => exact (s.arrive entry rest).digest_fire entry.timer
  | nothing | replace _ | point _ | calibrate _ | resize _ | openDemo | closeDemo | startDemo _ _
  | wait _ _ => rfl

end Moves

end Stage

theorem Execution.digest {config : StageConfig} {s : Stage} {log : List TimedEvent}
    {plans : List Announcement} (h : Execution config s log plans) :
    Digest.initial.noteAll (log.map (·.event)) = s.digest := by
  refine h.induction (P := fun s log _ => Digest.initial.noteAll (log.map (·.event)) = s.digest)
    ?_ ?_
  · rintro s ⟨-, program, generator, -, rfl⟩
    rfl
  · intro s log _ events _ s' hs hmove
    have hevents : (s'.stamp events).map (·.event) = events := by
      simp [Stage.stamp, Function.comp_def]
    rw [List.map_append, hevents, Digest.noteAll_append, hs, hmove.digest]

/-! ## Which runs are under way -/

/-- The steps of a run do not end it. -/
theorem Announcement.not_endsRun {config : StageConfig} {a : Announcement} {made : Nat}
    {e : TimedEvent} (he : e ∈ a.told config made) : e.event.endsRun = false := by
  rcases List.mem_cons.1 he with rfl | he
  · rfl
  · obtain ⟨index, hindex, rfl⟩ := List.mem_mapIdx.1 he
    rfl

/-- A run is under way if and only if it was told that it was started and not that it is over. -/
theorem Execution.mem_runs_iff {config : StageConfig} {s : Stage} {log : List TimedEvent}
    {plans : List Announcement} (h : Execution config s log plans) (run : RunId) :
    (∃ r ∈ s.runs.runs, r.id = run) ↔
      (∃ e ∈ log, e.event.run? = some run ∧ e.event.startsRun = true) ∧
        ∀ e ∈ log, e.event.run? = some run → e.event.endsRun = false := by
  have hs := h.told
  constructor
  · rintro ⟨r, hr, rfl⟩
    obtain ⟨a, ha, hrun⟩ := hs.announced r hr
    have hstart : a.startEvent ∈ log.filter (·.event.startsRun) := by
      rw [hs.started]
      exact List.mem_map_of_mem ha
    obtain ⟨-, habout⟩ := (hs.course a ha).held hr hrun.symm hs.continued.ascending
    refine ⟨⟨a.startEvent, (List.mem_filter.1 hstart).1, congrArg some hrun, rfl⟩, ?_⟩
    intro e he hsame
    have htold : e ∈ a.told config r.nextIndex := by
      rw [← habout]
      exact List.mem_filter.2 ⟨he, decide_eq_true (by rw [hsame, hrun])⟩
    exact Announcement.not_endsRun htold
  · rintro ⟨⟨e, he, hsame, hstarts⟩, hgoing⟩
    have hstart : e ∈ plans.map Announcement.startEvent := by
      rw [← hs.started]
      exact List.mem_filter.2 ⟨he, hstarts⟩
    obtain ⟨a, ha, rfl⟩ := List.mem_map.1 hstart
    obtain rfl : a.run = run := Option.some.inj hsame
    -- a run that is over has said so
    have hover : ∀ last made, about a.run log = a.told config made ++ [last] →
        last.event.run? = some a.run → last.event.endsRun = true → False := by
      intro last made hlog hrun hends
      have hmem : last ∈ about a.run log := by
        rw [hlog]
        exact List.mem_append_right _ List.mem_cons_self
      have hnot := hgoing last (List.mem_filter.1 hmem).1 hrun
      rw [hnot] at hends
      cases hends
    rcases hs.course a ha with ⟨r, hr, hid, -⟩ | ⟨last, action, -, -, hlog, -, -⟩ |
      ⟨index, instant, -, hlog, -⟩
    · exact ⟨r, hr, hid⟩
    · exact (hover _ _ hlog rfl rfl).elim
    · exact (hover _ _ hlog rfl rfl).elim

/-! ## Changes of the sprite -/

/-- Whether an event tells that the sprite may have changed. -/
def StageEvent.touchesSprite : StageEvent → Bool
  | .stepApplied _ _ _ | .actionApplied _ | .cleared _ | .undone _ | .reset => true
  | _ => false

/-- A deed that does not tell of the sprite is a clearing that is dropped. -/
theorem Happening.Done.sprite_eq {h : Happening} {events : List StageEvent} (hd : h.Done events)
    (hnone : h.event.touchesSprite = false) : h.after.sprite = h.before.sprite := by
  cases hd with
  | act _ _ place => cases place <;> cases hnone
  | undo _ | reset _ => cases hnone
  | clear _ _ hevent =>
      rcases Stage.fireClear_event hevent with ⟨rfl, -⟩ | ⟨-, heq, -⟩
      · cases hnone
      · rw [heq]
        rfl

theorem Stage.Deeds.sprite_eq {s s' : Stage} {log : List TimedEvent} {row : List Happening}
    (hdeeds : s.Deeds log row s') (hnone : ∀ h ∈ row, h.event.touchesSprite = false) :
    s'.sprite = s.sprite := by
  induction hdeeds with
  | nil => rfl
  | unseen still _ ih => exact (ih hnone).trans still.cells.sprite
  | seen done _ ih =>
      have hrest := ih fun h hmem => hnone h (List.mem_cons_of_mem _ hmem)
      exact hrest.trans (done.sprite_eq (hnone _ List.mem_cons_self))

/-- The sprite does not change without an event that tells of it. -/
theorem Stage.exists_touchesSprite {s s' : Stage} {operation : Operation}
    {answer : Except StageError (List StageEvent)}
    (hop : s.operate? operation = some (s', answer)) (hchanged : s'.sprite ≠ s.sprite) :
    ∃ event ∈ eventsOf answer, event.touchesSprite = true := by
  obtain ⟨timed, htimed, rfl⟩ := exists_operateTimed? hop
  obtain ⟨row, hdeeds⟩ := deeds_of_operateTimed? htimed
  rw [eventsOf_map]
  refine Classical.byContradiction fun hnone => hchanged (hdeeds.sprite_eq fun h hmem => ?_)
  have htold := List.mem_map_of_mem (f := (·.event)) (hdeeds.told_mem hmem)
  exact Bool.eq_false_iff.2 fun htouches => hnone ⟨h.event, htold, htouches⟩

/-! ## Operations without events -/

/-- What an operation without events leaves as it was: everything but the clock, the pointer, the
    origin, the program, the width within which the cats stay, and, as long as they do not turn
    round, where the cats are and when their next tick is due. -/
structure Stage.Unspoken (s s' : Stage) : Prop where
  config : s'.config = s.config
  sprite : s'.sprite = s.sprite
  generator : s'.generator = s.generator
  runs : s'.runs = s.runs
  history : s'.history = s.history
  pending : s'.agenda.pending = s.agenda.pending
  demoTicks : s'.agenda.demoTicks = s.agenda.demoTicks
  demoConfig : s'.demo.config
    = { s.demo.config with viewportWidth := s'.demo.config.viewportWidth }
  isOpen : s'.demo.isOpen = s.demo.isOpen
  isAnimating : s'.demo.isAnimating = s.demo.isAnimating
  session : s'.demo.session = s.demo.session
  directions : s'.demo.cats.directions = s.demo.cats.directions

namespace Stage.Unspoken

variable {s mid s' : Stage}

theorem refl (s : Stage) : Unspoken s s := by constructor <;> rfl

theorem trans (h : Unspoken s mid) (h' : Unspoken mid s') : Unspoken s s' where
  config := h'.config.trans h.config
  sprite := h'.sprite.trans h.sprite
  generator := h'.generator.trans h.generator
  runs := h'.runs.trans h.runs
  history := h'.history.trans h.history
  pending := h'.pending.trans h.pending
  demoTicks := h'.demoTicks.trans h.demoTicks
  demoConfig := by rw [h'.demoConfig, h.demoConfig]
  isOpen := h'.isOpen.trans h.isOpen
  isAnimating := h'.isAnimating.trans h.isAnimating
  session := h'.session.trans h.session
  directions := h'.directions.trans h.directions

end Stage.Unspoken

/-- Which ticks are scheduled can be seen from the demo. -/
theorem Paced.demoTicks_eq {s s' : Stage} (h : Paced s) (h' : Paced s')
    (hanimating : s'.demo.isAnimating = s.demo.isAnimating)
    (hsession : s'.demo.session = s.demo.session) :
    s'.agenda.demoTicks = s.agenda.demoTicks := by
  cases hwalking : s.demo.isAnimating with
  | true =>
      rw [(h.walking hwalking).2, (h'.walking (hanimating.trans hwalking)).2, hsession]
  | false => rw [h.idle hwalking, h'.idle (hanimating.trans hwalking)]

/-- A step that is scheduled is made when it fires, and told. -/
theorem Continued.runStep_tells {s : Stage} {run : RunId} {index : Nat} {owed : List (RunId × Nat)}
    (h : Continued s ((run, index) :: owed)) : (s.runStep run index).2 ≠ [] := by
  obtain ⟨r, hr, rfl, rfl⟩ := h.run_of_owed
  rcases s.runStep_cases r.id r.nextIndex with ⟨-, hover⟩ | ⟨r', hi, -, ⟨-, heq⟩ | ⟨-, heq⟩⟩
  · exact absurd (h.short r hr) (Nat.not_lt.2 (hover r (h.ascending.find?_of_mem hr)))
  · rw [heq]
    exact List.cons_ne_nil _ _
  · rw [heq]
    exact List.cons_ne_nil _ _

namespace Stage

variable {s s' : Stage}

theorem dispatch_tells (s : Stage) (origin : RunOrigin) : (s.dispatch origin).2 ≠ [] := by
  cases hplan : s.program.plan origin s.isPlaying with
  | ignore reason =>
      rw [dispatch_of_ignore hplan]
      exact List.cons_ne_nil _ _
  | start runs =>
      rw [dispatch_of_start hplan]
      exact List.cons_ne_nil _ _

/-- What fires without an event is a tick of the demo with which the cats do not turn round. -/
theorem unspoken_fire {entry : Appointment} {rest : List Appointment}
    (hentries : s.agenda.entries = entry :: rest)
    (hnone : ((s.arrive entry rest).fire entry.timer).2 = []) (hc : Continued s [])
    (hp : Paced s) : s.Unspoken ((s.arrive entry rest).fire entry.timer).1 := by
  have hp' : Paced ((s.arrive entry rest).fire entry.timer).1 := hp.fire hentries
  cases htimer : entry.timer with
  | step run index =>
      rw [htimer] at hnone
      exact absurd hnone (hc.arrive_step hentries htimer).runStep_tells
  | clear cell version =>
      rw [htimer, fire] at hnone
      rcases (s.arrive entry rest).fireClear_cases cell version with heq | heq <;>
        rw [heq] at hnone <;> cases hnone
  | demoTick session =>
      have hpending : s.agenda.pending = (s.arrive entry rest).agenda.pending :=
        Agenda.dues_cons_of_none hentries (by rw [htimer]; rfl)
      rw [htimer] at hp' hnone
      rcases (s.arrive entry rest).fireDemoTick_cases session with ⟨-, heq⟩ | ⟨-, -, heq⟩
      · rw [fire, heq] at hp' ⊢
        exact ⟨rfl, rfl, rfl, rfl, rfl, hpending.symm, hp.demoTicks_eq hp' rfl rfl, rfl, rfl, rfl,
          rfl, rfl⟩
      · rw [fire, heq] at hp' hnone ⊢
        have hflip : s.demo.step.2 = none := by
          cases hstep : s.demo.step.2 with
          | none => rfl
          | some flip =>
              have hsome : (s.arrive entry rest).demo.step.2 = some flip := hstep
              rw [hsome] at hnone
              cases hnone
        have hdirections := directions_step s.demo
        rw [hflip] at hdirections
        have hanimating : (s.arrive entry rest).demoTick.demo.isAnimating = s.demo.isAnimating :=
          s.demo.step_isAnimating
        have hsession : (s.arrive entry rest).demoTick.demo.session = s.demo.session :=
          s.demo.step_session
        refine ⟨rfl, rfl, rfl, rfl, rfl, ?_, hp.demoTicks_eq hp' hanimating hsession, ?_,
          s.demo.step_isOpen, hanimating, hsession, hdirections⟩
        · exact (Agenda.dues_schedule_of_none _ _ rfl).trans hpending.symm
        · have hconfig : (s.arrive entry rest).demoTick.demo.config = s.demo.config :=
            s.demo.step_config
          rw [hconfig]

/-- A move without events leaves as it was what the events are to tell. -/
theorem Moves.unspoken {events : List StageEvent} {started : List Announcement}
    (m : Moves s events started s') (hnone : events = []) (hc : Continued s []) (hp : Paced s) :
    s.Unspoken s' := by
  cases m with
  | click origin => exact absurd hnone (s.dispatch_tells origin)
  | undo =>
      rcases s.undo_cases with ⟨-, heq⟩ | ⟨newest, rest, -, heq⟩
      · rw [heq]
        exact .refl s
      · rw [heq] at hnone
        simp at hnone
  | reset => exact absurd (List.append_eq_nil_iff.1 hnone).2 (List.cons_ne_nil _ _)
  | fire hentries => exact unspoken_fire hentries hnone hc hp
  | once _ | openDemo | closeDemo | startDemo _ _ => cases hnone
  | nothing | replace _ | point _ | calibrate _ | resize _ | wait _ _ => constructor <;> rfl

theorem Path.unspoken {log : List TimedEvent} {started : List Announcement}
    (h : Path s log started s') (hnone : log = []) (hc : Continued s []) (hp : Paced s) :
    s.Unspoken s' := by
  induction h with
  | nil s => exact .refl s
  | cons move _ ih =>
      obtain ⟨hfirst, hrest⟩ := List.append_eq_nil_iff.1 hnone
      have hmove := move.unspoken (List.map_eq_nil_iff.1 hfirst) hc hp
      exact hmove.trans (ih hrest (move.continued hc) (move.paced hp))

end Stage

/-- An operation without events changes nothing that the events are to tell. -/
theorem Reachable.unspoken {s s' : Stage} {operation : Operation}
    {answer : Except StageError (List StageEvent)} (h : Reachable s)
    (hop : s.operate? operation = some (s', answer)) (hnone : Stage.eventsOf answer = []) :
    s.Unspoken s' := by
  obtain ⟨timed, htimed, rfl⟩ := Stage.exists_operateTimed? hop
  rw [Stage.eventsOf_map] at hnone
  exact (Stage.path_of_operateTimed? htimed).unspoken (List.map_eq_nil_iff.1 hnone)
    h.continued h.paced

/-! ## The feed -/

/-- Whoever notes the events from the beginning knows which runs are under way, how deep the
    history is, and of the demo whether it is open, whether it walks and where the cats look. A
    change of the sprite is told as well, and what no event tells of has not changed, a few things
    apart (`Stage.Unspoken`). -/
theorem Execution.change_feed {config : StageConfig} {s : Stage} {log : List TimedEvent}
    {plans : List Announcement} (h : Execution config s log plans) :
    let feed := Digest.initial.noteAll (log.map (·.event))
    -- the runs
    (∀ run, run ∈ feed.running ↔ ∃ r ∈ s.runs.runs, r.id = run) ∧
      (∀ run, run ∈ feed.running ↔
        (∃ e ∈ log, e.event.run? = some run ∧ e.event.startsRun = true) ∧
          ∀ e ∈ log, e.event.run? = some run → e.event.endsRun = false) ∧
      (s.snapshot.playing = true ↔ feed.running ≠ []) ∧
      -- the history and the demo
      s.snapshot.historyDepth = feed.depth ∧
      s.snapshot.demo.isOpen = feed.isOpen ∧
      s.snapshot.demo.isAnimating = feed.isAnimating ∧
      s.snapshot.demo.cats.directions = feed.directions ∧
      -- an operation that follows, refused or not
      ∀ operation s' answer, s.operate? operation = some (s', answer) →
        (s'.sprite ≠ s.sprite → ∃ event ∈ Stage.eventsOf answer, event.touchesSprite = true) ∧
        (Stage.eventsOf answer = [] → s.Unspoken s') := by
  intro feed
  have hfeed : feed = s.digest := h.digest
  have hrunning : feed.running = s.runs.ids := congrArg Digest.running hfeed
  have hmem : ∀ run, run ∈ feed.running ↔ ∃ r ∈ s.runs.runs, r.id = run := by
    intro run
    rw [hrunning, RunTable.mem_ids]
  refine ⟨hmem, fun run => (hmem run).trans (h.mem_runs_iff run), ?_,
    (congrArg Digest.depth hfeed).symm, (congrArg Digest.isOpen hfeed).symm,
    (congrArg Digest.isAnimating hfeed).symm, (congrArg Digest.directions hfeed).symm, ?_⟩
  · rw [hrunning]
    simp [Stage.snapshot, Stage.isPlaying, RunTable.isPlaying, RunTable.ids]
  · exact fun operation s' answer hop =>
      ⟨Stage.exists_touchesSprite hop, h.reachable.unspoken hop⟩

/-- After a click on the flag a run is under way and the history is one snapshot deep, and that is
    what the events tell. Half of the time until the second step passes without an event, and
    nothing of it changes. -/
theorem change_feed_of_two_moves :
    let start := Stage.new ⟨[[.trigger .flagClicked, .move 10, .move 10]], none⟩
    let clicked := start.dispatch (.trigger .flagClicked)
    let log := clicked.1.stamp clicked.2
    let feed := Digest.initial.noteAll (log.map (·.event))
    clicked.1.snapshot.playing = true ∧ feed.running = [1] ∧
      clicked.1.snapshot.historyDepth = 1 ∧ feed.depth = 1 ∧
      ∃ s', clicked.1.operate? (.advanceTo 5) = some (s', .ok []) ∧ clicked.1.Unspoken s' := by
  intro start clicked log feed
  have hclick : start.operateTimed? (.input .flagClicked)
      = some (Stage.accepted (Stage.stamped clicked)) := rfl
  have hexecution : Execution {} clicked.1 log _ := .operate (.new (Stage.isNew_new _)) hclick
  have hrunning : feed.running = [1] := by decide +kernel
  have hpushed : feed.depth = 1 := by decide +kernel
  have hsilent : (clicked.1.advanceTo? 5).map (·.2.isEmpty) = some true := by decide +kernel
  obtain ⟨-, -, hplaying, hdepth, -, -, -, hoperations⟩ := hexecution.change_feed
  refine ⟨hplaying.2 ?_, hrunning, hdepth.trans hpushed, hpushed, ?_⟩
  · intro hnone
    cases hrunning.symm.trans hnone
  · obtain ⟨⟨s', events⟩, hadvance, hevents⟩ := Option.map_eq_some_iff.1 hsilent
    have hop : clicked.1.operate? (.advanceTo 5) = some (s', .ok events) := by
      rw [Stage.operate?, hadvance]
      rfl
    obtain rfl : events = [] := List.isEmpty_iff.1 hevents
    exact ⟨s', hop, (hoperations _ _ _ hop).2 rfl⟩

end SpriteStage

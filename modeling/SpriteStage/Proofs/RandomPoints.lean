import SpriteStage.Proofs.Chronicle
import SpriteStage.Proofs.Journal
set_option autoImplicit false

/-! # Random points

The only actions that draw random numbers are those that take the sprite to a random point, and each
of them draws one point. So the generator is where the count of these actions has taken it
(`DrawsPoints`), whatever else has happened, and the points of an execution are the first ones of
the sequence that belongs to its seed and its extent.

To count the actions they are listed as they are performed (`Incident.performances`). Each of them
is told by one event, and no other event tells of one (`Incident.Occurs.told_performances`). Where
there are any, they carry the sprite from the stage before to the stage after
(`Incident.Occurs.carries`). -/

namespace SpriteStage

/-! ## Points in a row -/

namespace Generator

/-- Draw some points one after the other. -/
def points (extent : Float) : Nat → Generator → List Point × Generator
  | 0, g => ([], g)
  | count + 1, g =>
    let first := g.point extent
    let later := points extent count first.2
    (first.1 :: later.1, later.2)

theorem points_succ (extent : Float) (count : Nat) (g : Generator) :
    g.points extent (count + 1)
      = ((g.point extent).1 :: ((g.point extent).2.points extent count).1,
          ((g.point extent).2.points extent count).2) := by
  rw [points]

/-- Drawing goes on where it stopped. -/
theorem points_add (extent : Float) (count more : Nat) (g : Generator) :
    g.points extent (count + more)
      = ((g.points extent count).1 ++ ((g.points extent count).2.points extent more).1,
          ((g.points extent count).2.points extent more).2) := by
  induction count generalizing g with
  | zero => rw [Nat.zero_add]; rfl
  | succ count ih => rw [Nat.succ_add, points_succ, points_succ, ih, List.cons_append]

/-- A point does not depend on how many are drawn after it. -/
theorem points_getElem?_eq {extent : Float} {k : Nat} {p q : Point} (count more : Nat)
    (g : Generator) (hp : (g.points extent count).1[k]? = some p)
    (hq : (g.points extent more).1[k]? = some q) : p = q := by
  induction k generalizing count more g with
  | zero =>
      cases count with
      | zero => cases hp
      | succ count =>
          cases more with
          | zero => cases hq
          | succ more => exact Option.some.inj (hp.symm.trans hq)
  | succ k ih =>
      cases count with
      | zero => cases hp
      | succ count =>
          cases more with
          | zero => cases hq
          | succ more => exact ih count more _ hp hq

end Generator

namespace Action

/-- Whether an action takes the sprite to a random point. -/
def drawsPoint : Action → Bool
  | .random | .glideRandom _ => true
  | _ => false

section

variable {action : Action} (around : Surroundings) (extent : Float) (g : Generator) (s : Sprite)

theorem perform_of_drawsPoint (h : action.drawsPoint = true) :
    (action.perform around extent g s).sprite.transform.position = (g.point extent).1 ∧
      (action.perform around extent g s).generator = (g.point extent).2 := by
  cases action with
  | random | glideRandom _ => exact ⟨rfl, rfl⟩
  | _ => cases h

theorem generator_of_not_drawsPoint (h : action.drawsPoint = false) :
    (action.perform around extent g s).generator = g := by
  cases action with
  | random | glideRandom _ => cases h
  | _ => rfl

end

end Action

/-! ## Actions one by one -/

/-- Whether an event tells of an action. -/
def StageEvent.isOfAction : StageEvent → Bool
  | .stepApplied _ _ _ | .actionApplied _ => true
  | _ => false

/-- An action that is performed, as a step of a run or outside any run, and the stage before it. -/
structure Performance where
  before : Stage
  action : Action
  place : Option (RunId × Nat)

namespace Performance

/-- The stage after the action. -/
def after (p : Performance) : Stage := p.before.perform p.action

/-- Where the action puts the sprite. -/
def position (p : Performance) : Point := p.after.sprite.transform.position

/-- The event that tells of the action, with its instant. -/
def told (p : Performance) : TimedEvent := ⟨p.before.now, p.action.event p.place⟩

end Performance

namespace Stage

/-- The action of a step of a run. -/
def stepPerformances (s : Stage) (run : RunId) (index : Nat) : List Performance :=
  match s.runs.enter? run index with
  | none => []
  | some (action, runs) => [⟨{ s with runs }, action, some (run, index)⟩]

/-- The actions of first steps. -/
def firstPerformances (s : Stage) : List RunId → List Performance
  | [] => []
  | run :: rest => s.stepPerformances run 0 ++ (s.runStep run 0).1.firstPerformances rest

/-- The actions of a click: the first steps of all runs that it starts. -/
def clickPerformances (s : Stage) (origin : RunOrigin) : List Performance :=
  match s.program.plan origin s.isPlaying with
  | .ignore _ => []
  | .start runs => (s.startAll origin runs).1.firstPerformances (s.startAll origin runs).2.1

/-- The actions of the answer to an input. -/
def inputPerformances (s : Stage) (input : StageInput) : List Performance :=
  match input.origin? with
  | some origin => s.clickPerformances origin
  | none =>
    match input with
    | .clicked descriptor =>
      match Action.ofDescriptor descriptor with
      | .ok action => [⟨s, action, none⟩]
      | .error _ => []
    | _ => []

/-- The action for a single click, performed when its program is loaded. -/
def loadPerformances (s : Stage) (program : Program) : List Performance :=
  match program.clicked with
  | none => []
  | some action => [⟨{ s with program }, action, none⟩]

/-- The action of a timer. -/
def timerPerformances (s : Stage) : Timer → List Performance
  | .step run index => s.stepPerformances run index
  | .clear _ _ | .demoTick _ => []

end Stage

/-- The actions that are performed in an incident, in order. -/
def Incident.performances (x : Incident) : List Performance :=
  match x.cause with
  | .load program => x.before.loadPerformances program
  | .input input => x.before.inputPerformances input
  | .fire entry =>
    (x.before.arrive entry x.before.agenda.entries.tail).timerPerformances entry.timer
  | .wait _ => []

/-- Where the actions that take the sprite to a random point put it, in order. -/
def randomPoints (row : List Performance) : List Point :=
  (row.filter (·.action.drawsPoint)).map (·.position)

theorem randomPoints_append (row later : List Performance) :
    randomPoints (row ++ later) = randomPoints row ++ randomPoints later := by
  simp [randomPoints]

/-! ## Where the sprite is carried -/

/-- Actions that follow one another carry the sprite from its first to its last state. -/
inductive Carries : Sprite → List Performance → Sprite → Prop
  | nil (sprite : Sprite) : Carries sprite [] sprite
  | cons {p : Performance} {row : List Performance} {last : Sprite}
      (hrest : Carries p.after.sprite row last) : Carries p.before.sprite (p :: row) last

namespace Carries

theorem single (p : Performance) : Carries p.before.sprite [p] p.after.sprite := .cons (.nil _)

theorem append {first mid last : Sprite} {row later : List Performance}
    (h : Carries first row mid) (h' : Carries mid later last) :
    Carries first (row ++ later) last := by
  induction h with
  | nil => exact h'
  | cons _ ih => exact .cons (ih h')

end Carries

/-! ## What is drawn -/

/-- From the one generator to the other just the random points of some actions are drawn. -/
def DrawsPoints (extent : Float) (g : Generator) (row : List Performance) (g' : Generator) : Prop :=
  g.points extent (randomPoints row).length = (randomPoints row, g')

namespace DrawsPoints

variable {extent : Float} {g mid g' : Generator} {row later : List Performance}

theorem nil (extent : Float) (g : Generator) : DrawsPoints extent g [] g := rfl

theorem append (h : DrawsPoints extent g row mid) (h' : DrawsPoints extent mid later g') :
    DrawsPoints extent g (row ++ later) g' := by
  unfold DrawsPoints at h h' ⊢
  rw [randomPoints_append, List.length_append, Generator.points_add, h, h']

end DrawsPoints

namespace Stage

theorem perform_generator (s : Stage) (action : Action) :
    (s.perform action).generator = (s.performed action).generator := by
  rw [perform_eq]
  cases (s.performed action).clear <;> rfl

/-- An action draws one point, to which it takes the sprite, or nothing at all. -/
theorem drawsPoints_perform (p : Performance) :
    DrawsPoints p.before.config.randomExtent p.before.generator [p] p.after.generator := by
  have hgenerator : p.after.generator = (p.before.performed p.action).generator :=
    p.before.perform_generator p.action
  have hposition : p.position = (p.before.performed p.action).sprite.transform.position := by
    rw [Performance.position, Performance.after, perform_sprite]
  cases hdraws : p.action.drawsPoint with
  | true =>
      obtain ⟨hpoint, hnext⟩ := Action.perform_of_drawsPoint
        ⟨(p.before.pointer.flush p.before.now).current, p.before.centre⟩
        p.before.config.randomExtent p.before.generator p.before.sprite hdraws
      have hpoints : randomPoints [p] = [p.position] := by simp [randomPoints, hdraws]
      unfold DrawsPoints
      rw [hpoints, List.length_singleton, Generator.points_succ, hposition, hgenerator, performed,
        hpoint, hnext, Generator.points]
  | false =>
      have hpoints : randomPoints [p] = [] := by simp [randomPoints, hdraws]
      unfold DrawsPoints
      rw [hpoints, hgenerator, performed, Action.generator_of_not_drawsPoint _ _ _ _ hdraws]
      rfl

/-- What is done at an instant performs some actions: these draw all that is drawn, and the events
    tell of them and of no others. -/
structure Performs (s : Stage) (row : List Performance) (s' : Stage) (events : List StageEvent) :
    Prop where
  config_eq : s'.config = s.config
  now_eq : s'.now = s.now
  draws : DrawsPoints s.config.randomExtent s.generator row s'.generator
  told : s.stamp (events.filter (·.isOfAction)) = row.map Performance.told

namespace Performs

variable {s mid s' : Stage} {row later : List Performance} {events more : List StageEvent}

theorem of_none (hconfig : s'.config = s.config) (hnow : s'.now = s.now)
    (hgenerator : s'.generator = s.generator)
    (hevents : ∀ event ∈ events, event.isOfAction = false) : s.Performs [] s' events where
  config_eq := hconfig
  now_eq := hnow
  draws := hgenerator ▸ .nil _ _
  told := by
    rw [List.filter_eq_nil_iff.2 fun event hevent => by simp [hevents event hevent]]
    rfl

theorem append (h : s.Performs row mid events) (h' : mid.Performs later s' more) :
    s.Performs (row ++ later) s' (events ++ more) where
  config_eq := h'.config_eq.trans h.config_eq
  now_eq := h'.now_eq.trans h.now_eq
  draws := h.draws.append (h.config_eq ▸ h'.draws)
  told := by
    rw [List.filter_append, stamp_append, List.map_append, h.told, ← h'.told,
      stamp_congr h.now_eq]

end Performs

section Operations

variable (s : Stage)

/-- An action outside any run. -/
theorem performs_once (action : Action) :
    s.Performs [⟨s, action, none⟩] (s.perform action) [.actionApplied action.name] where
  config_eq := s.perform_config action
  now_eq := s.perform_now action
  draws := drawsPoints_perform ⟨s, action, none⟩
  told := rfl

/-- A step of a run performs its action, to which the table of runs makes no difference, or there is
    no such step. -/
theorem stepPerformances_cases (run : RunId) (index : Nat) :
    (s.stepPerformances run index = [] ∧ s.runStep run index = (s, [])) ∨
    ∃ (action : Action) (before after : RunTable) (agenda : Agenda) (events : List StageEvent),
      s.stepPerformances run index
        = [⟨{ s with runs := before }, action, some (run, index)⟩] ∧
      s.runStep run index = ({ s.perform action with runs := after, agenda },
        .stepApplied run index action.name :: events) ∧
      events.filter (·.isOfAction) = [] := by
  rcases s.runStep_cases run index with ⟨heq, hnone⟩ | ⟨r, hi, hr, hcase⟩
  · exact Or.inl ⟨by rw [stepPerformances, RunTable.enter?_eq_none hnone], heq⟩
  · have hrow : s.stepPerformances run index = [⟨{ s with runs := s.runs.moveTo run index },
        r.actions[index], some (run, index)⟩] := by
      rw [stepPerformances, RunTable.enter?_of_find? hr hi]
    rcases hcase with ⟨-, heq⟩ | ⟨-, heq⟩
    · exact Or.inr ⟨_, _, _, _, _, hrow, heq, rfl⟩
    · exact Or.inr ⟨_, _, _, _, _, hrow, heq, rfl⟩

theorem performs_runStep (run : RunId) (index : Nat) :
    s.Performs (s.stepPerformances run index) (s.runStep run index).1
      (s.runStep run index).2 := by
  rcases s.stepPerformances_cases run index with ⟨hrow, heq⟩ |
    ⟨action, before, after, agenda, events, hrow, heq, hevents⟩
  · rw [hrow, heq]
    exact .of_none rfl rfl rfl (List.forall_mem_nil _)
  · have hdraws := drawsPoints_perform ⟨{ s with runs := before }, action, some (run, index)⟩
    rw [Performance.after, perform_withRuns] at hdraws
    rw [hrow, heq]
    refine ⟨s.perform_config action, s.perform_now action, hdraws, ?_⟩
    rw [List.filter_cons_of_pos rfl, hevents]
    rfl

theorem performs_firstSteps (ids : List RunId) :
    s.Performs (s.firstPerformances ids) (s.firstSteps ids).1 (s.firstSteps ids).2 := by
  induction ids generalizing s with
  | nil => exact .of_none rfl rfl rfl (List.forall_mem_nil _)
  | cons run rest ih => exact (s.performs_runStep run 0).append (ih _)

theorem performs_dispatch (origin : RunOrigin) :
    s.Performs (s.clickPerformances origin) (s.dispatch origin).1 (s.dispatch origin).2 := by
  cases hplan : s.program.plan origin s.isPlaying with
  | ignore reason =>
      simp only [clickPerformances, hplan, dispatch_of_ignore hplan]
      exact .of_none rfl rfl rfl (by simp [StageEvent.isOfAction])
  | start runs =>
      -- until the first steps nothing is performed
      have hstart : s.Performs [] (s.startAll origin runs).1
          (.historyPushed (s.history.push (.capture s.sprite)).depth
            :: (s.startAll origin runs).2.2) := by
        refine .of_none (by rw [startAll_eq]) (by rw [startAll_eq]) (by rw [startAll_eq])
          fun event hevent => ?_
        rcases List.mem_cons.1 hevent with rfl | hevent
        · rfl
        · have hstarts := startRuns_startsRun _ origin runs event hevent
          cases event <;> simp_all [StageEvent.startsRun, StageEvent.isOfAction]
      simp only [clickPerformances, hplan, dispatch_of_start hplan]
      exact hstart.append (performs_firstSteps _ _)

theorem carries_runStep (run : RunId) (index : Nat) :
    Carries s.sprite (s.stepPerformances run index) (s.runStep run index).1.sprite := by
  rcases s.stepPerformances_cases run index with ⟨hrow, heq⟩ |
    ⟨action, before, after, agenda, events, hrow, heq, -⟩
  · rw [hrow, heq]
    exact .nil _
  · have hsingle := Carries.single ⟨{ s with runs := before }, action, some (run, index)⟩
    rw [Performance.after, perform_withRuns] at hsingle
    rw [hrow, heq]
    exact hsingle

theorem carries_firstSteps (ids : List RunId) :
    Carries s.sprite (s.firstPerformances ids) (s.firstSteps ids).1.sprite := by
  induction ids generalizing s with
  | nil => exact .nil _
  | cons run rest ih => exact (s.carries_runStep run 0).append (ih _)

theorem carries_dispatch (origin : RunOrigin) :
    Carries s.sprite (s.clickPerformances origin) (s.dispatch origin).1.sprite := by
  cases hplan : s.program.plan origin s.isPlaying with
  | ignore reason =>
      simp only [clickPerformances, hplan, dispatch_of_ignore hplan]
      exact .nil _
  | start runs =>
      have hsprite : (s.startAll origin runs).1.sprite = s.sprite := by rw [startAll_eq]
      simp only [clickPerformances, hplan, dispatch_of_start hplan]
      rw [← hsprite]
      exact carries_firstSteps _ _

theorem carries_load (program : Program) :
    Carries s.sprite (s.loadPerformances program) (s.load program).1.sprite := by
  unfold load loadPerformances
  cases program.clicked with
  | none => exact .nil _
  | some action => exact .single ⟨{ s with program }, action, none⟩

theorem performs_load (program : Program) :
    s.Performs (s.loadPerformances program) (s.load program).1 (s.load program).2 := by
  unfold load loadPerformances
  cases program.clicked with
  | none => exact .of_none rfl rfl rfl (List.forall_mem_nil _)
  | some action =>
      have honce := performs_once { s with program } action
      exact ⟨honce.config_eq, honce.now_eq, honce.draws, honce.told⟩

theorem performs_undo : s.Performs [] s.undo.1 s.undo.2 := by
  have hgenerator : s.undo.1.generator = s.generator ∧ s.undo.1.config = s.config := by
    rcases s.undo_cases with ⟨-, heq⟩ | ⟨newest, rest, -, heq⟩
    · rw [heq]
      exact ⟨rfl, rfl⟩
    · rw [heq]
      unfold beforeUndo
      split <;> exact ⟨rfl, rfl⟩
  refine .of_none hgenerator.2 s.undo_now hgenerator.1 fun event hevent => ?_
  rcases s.undo_tells event hevent with ⟨_, _, rfl⟩ | ⟨_, rfl⟩ <;> rfl

theorem performs_reset : s.Performs [] s.reset.1 s.reset.2 := by
  refine .of_none rfl rfl rfl fun event hevent => ?_
  rcases s.reset_tells event hevent with ⟨_, _, rfl⟩ | rfl <;> rfl

theorem performs_fire (timer : Timer) :
    s.Performs (s.timerPerformances timer) (s.fire timer).1 (s.fire timer).2 := by
  cases timer with
  | step run index => exact s.performs_runStep run index
  | clear cell version =>
      rcases s.fireClear_cases cell version with heq | heq <;> rw [fire, heq] <;>
        exact .of_none rfl rfl rfl (by simp [StageEvent.isOfAction])
  | demoTick session =>
      rcases s.fireDemoTick_cases session with ⟨-, heq⟩ | ⟨-, -, heq⟩ <;> rw [fire, heq] <;>
        exact .of_none rfl rfl rfl (by simp [StageEvent.isOfAction])

end Operations

section Answers

variable {s s' : Stage} {input : StageInput} {events : List StageEvent}

theorem inputPerformances_of_click {origin : RunOrigin} (horigin : input.origin? = some origin) :
    s.inputPerformances input = s.clickPerformances origin := by
  unfold inputPerformances
  simp only [horigin]

theorem inputPerformances_of_once {descriptor : Descriptor} {action : Action}
    (haction : Action.ofDescriptor descriptor = .ok action) :
    s.inputPerformances (.clicked descriptor) = [⟨s, action, none⟩] := by
  simp [inputPerformances, StageInput.origin?, haction]

/-- What is refused performs nothing. -/
theorem inputPerformances_of_refused {e : StageError} (hhandle : s.handle input = (s', .error e)) :
    s.inputPerformances input = [] := by
  rcases (refused_cases hhandle).2 with ⟨descriptor, cause, rfl, haction, -⟩ | ⟨rfl, -⟩
  · simp [inputPerformances, StageInput.origin?, haction]
  · rfl

theorem Answers.performs (ha : s.Answers input s' events) :
    s.Performs (s.inputPerformances input) s' events := by
  have hquiet : ∀ event : StageEvent, event.isOfAction = false →
      ∀ e ∈ [event], e.isOfAction = false := by
    intro event hevent e he
    rwa [List.mem_singleton.1 he]
  cases ha with
  | @click _ origin horigin =>
      rw [inputPerformances_of_click horigin]
      exact s.performs_dispatch origin
  | @once _ action haction =>
      rw [inputPerformances_of_once haction]
      exact s.performs_once action
  | undo => exact s.performs_undo
  | reset => exact s.performs_reset
  | otherKey _ | point _ | calibrate _ | resize _ | walking _ _ =>
      exact .of_none rfl rfl rfl (List.forall_mem_nil _)
  | openDemo | closeDemo | startDemo _ _ => exact .of_none rfl rfl rfl (hquiet _ rfl)

theorem Answers.carries (ha : s.Answers input s' events) :
    s.inputPerformances input = [] ∨
      Carries s.sprite (s.inputPerformances input) s'.sprite := by
  cases ha with
  | @click _ origin horigin =>
      rw [inputPerformances_of_click horigin]
      exact Or.inr (s.carries_dispatch origin)
  | @once _ action haction =>
      rw [inputPerformances_of_once haction]
      exact Or.inr (.single ⟨s, action, none⟩)
  | otherKey _ | point _ | undo | reset | calibrate _ | resize _ | openDemo | closeDemo
  | startDemo _ _ | walking _ _ => exact Or.inl rfl

end Answers

end Stage

/-! ## Incident by incident -/

namespace Incident.Occurs

variable {x : Incident}

/-- The random points of its actions are all that an incident draws. -/
theorem draws (hx : x.Occurs) : DrawsPoints x.before.config.randomExtent x.before.generator
    x.performances x.after.generator := by
  cases hx with
  | load s program => exact (s.performs_load program).draws
  | input hhandle => exact (Stage.answers_of_handle hhandle).performs.draws
  | refused hhandle =>
      simp only [performances, Stage.inputPerformances_of_refused hhandle,
        Stage.eq_of_refused hhandle]
      exact .nil _ _
  | @fire s entry rest hentries =>
      simp only [performances, hentries, List.tail_cons]
      exact ((s.arrive entry rest).performs_fire entry.timer).draws
  | wait _ _ => exact .nil _ _

/-- The events tell of each action, at the instant at which it is performed. -/
theorem told_performances (hx : x.Occurs) :
    x.told.filter (·.event.isOfAction) = x.performances.map Performance.told := by
  -- the answer takes no time
  have hanswer : ∀ {s s' : Stage} {row events}, s.Performs row s' events →
      (s'.stamp events).filter (·.event.isOfAction) = row.map Performance.told := by
    intro s s' row events hperforms
    rw [Stage.filter_stamp, Stage.stamp_congr hperforms.now_eq, hperforms.told]
  cases hx with
  | load s program => exact hanswer (s.performs_load program)
  | input hhandle => exact hanswer (Stage.answers_of_handle hhandle).performs
  | refused hhandle =>
      simp only [performances, Stage.inputPerformances_of_refused hhandle]
      rfl
  | @fire s entry rest hentries =>
      simp only [performances, hentries, List.tail_cons]
      exact hanswer ((s.arrive entry rest).performs_fire entry.timer)
  | wait _ _ => rfl

/-- What performs actions moves the sprite by these alone. -/
theorem carries (hx : x.Occurs) :
    x.performances = [] ∨ Carries x.before.sprite x.performances x.after.sprite := by
  cases hx with
  | load s program => exact Or.inr (s.carries_load program)
  | input hhandle => exact (Stage.answers_of_handle hhandle).carries
  | refused hhandle => exact Or.inl (Stage.inputPerformances_of_refused hhandle)
  | @fire s entry rest hentries =>
      simp only [performances, hentries, List.tail_cons]
      cases entry.timer with
      | step run index => exact Or.inr ((s.arrive entry rest).carries_runStep run index)
      | clear _ _ | demoTick _ => exact Or.inl rfl
  | wait _ _ => exact Or.inl rfl

/-- Without an action that draws the generator stays where it is. -/
theorem generator_eq (hx : x.Occurs) (hnone : ∀ p ∈ x.performances, p.action.drawsPoint = false) :
    x.after.generator = x.before.generator := by
  have hpoints : randomPoints x.performances = [] := by
    rw [randomPoints, List.filter_eq_nil_iff.2 fun p hp => by simp [hnone p hp], List.map_nil]
  have hdraws := hx.draws
  unfold DrawsPoints at hdraws
  rw [hpoints] at hdraws
  exact (congrArg Prod.snd hdraws).symm

end Incident.Occurs

/-- What a journal draws are the random points of its actions. -/
theorem Stage.Journal.draws {s s' : Stage} {row : List Incident} (h : s.Journal row s') :
    DrawsPoints s.config.randomExtent s.generator (row.flatMap (·.performances)) s'.generator := by
  induction h with
  | nil s => exact .nil _ _
  | @cons x row _ hx _ ih =>
      rw [List.flatMap_cons]
      exact hx.draws.append (hx.config_eq ▸ ih)

/-- The random points of a journal are the first ones that belong to the seed. -/
theorem Stage.Journal.randomPoints_eq {config : StageConfig} {start s : Stage}
    {row : List Incident} (h : start.Journal row s) (hnew : start.IsNew config) {seed : Nat}
    (hseed : config.seed = some seed) :
    randomPoints (row.flatMap (·.performances))
      = ((Generator.seeded seed.toUInt64).points config.randomExtent
          (randomPoints (row.flatMap (·.performances))).length).1 := by
  obtain ⟨-, program, generator, hgenerator, rfl⟩ := hnew
  obtain rfl := hgenerator seed hseed
  exact (congrArg Prod.fst h.draws).symm

/-! ## Main result -/

/-- The random points depend on the seed and the extent alone. Two executions with the same seed and
    the same extent, whatever else they differ in, take the sprite to the same random points in the
    same order, as far as both go. Each action that is performed is told, the actions carry the sprite,
    each that goes to a random point draws this point, and nothing else that happens touches the
    generator. -/
theorem Execution.random_points_agree {config config' : StageConfig} {s s' : Stage}
    {log log' : List TimedEvent} {plans plans' : List Announcement} {seed : Nat}
    (h : Execution config s log plans) (h' : Execution config' s' log' plans')
    (hseed : config.seed = some seed) (hseed' : config'.seed = some seed)
    (hextent : config'.randomExtent = config.randomExtent) :
    (∃ start row, Stage.IsNew config start ∧ start.Journal row s ∧
      row.flatMap Incident.told = log) ∧
    (∃ start' row', Stage.IsNew config' start' ∧ start'.Journal row' s' ∧
      row'.flatMap Incident.told = log') ∧
    (∀ start row, Stage.IsNew config start → start.Journal row s → ∀ x ∈ row,
      x.told.filter (·.event.isOfAction) = x.performances.map Performance.told ∧
      (x.performances = [] ∨ Carries x.before.sprite x.performances x.after.sprite) ∧
      x.before.generator.points config.randomExtent (randomPoints x.performances).length
        = (randomPoints x.performances, x.after.generator) ∧
      ((∀ p ∈ x.performances, p.action.drawsPoint = false) →
        x.after.generator = x.before.generator)) ∧
    ∀ start row start' row', Stage.IsNew config start → start.Journal row s →
      Stage.IsNew config' start' → start'.Journal row' s' →
        ∀ (k : Nat) (p p' : Point),
          (randomPoints (row.flatMap (·.performances)))[k]? = some p →
          (randomPoints (row'.flatMap (·.performances)))[k]? = some p' → p = p' := by
  refine ⟨h.exists_journal, h'.exists_journal, fun start row hnew hrow x hx => ?_,
    fun start row start' row' hnew hrow hnew' hrow' k p p' hp hp' => ?_⟩
  · obtain ⟨-, hkept⟩ := hrow.keeps (P := fun t => t.config = config)
      (fun _ _ _ _ ht hmove => hmove.config_eq.trans ht)
      (by obtain ⟨-, program, generator, -, rfl⟩ := hnew; rfl)
    obtain ⟨hoccurs, hconfig, -⟩ := hkept x hx
    exact ⟨hoccurs.told_performances, hoccurs.carries, hconfig ▸ hoccurs.draws, hoccurs.generator_eq⟩
  · rw [hrow.randomPoints_eq hnew hseed] at hp
    rw [hrow'.randomPoints_eq hnew' hseed', hextent] at hp'
    exact Generator.points_getElem?_eq _ _ _ hp hp'

/-- A run that goes to a random point and a glide to one, on stages with different programs and
    histories, take the sprite to the same point. -/
theorem random_points_of_two_clicks :
    let config : StageConfig := { seed := some 7 }
    let config' : StageConfig := { seed := some 7, historyDepth := 5, stalePolicy := .fire }
    let start := Stage.build ⟨[[.trigger .flagClicked, .random]], none⟩ config
    let start' := Stage.build ⟨[[.trigger .spriteClicked, .glideRandom 500]], none⟩ config'
    let clicked := start.dispatch (.trigger .flagClicked)
    let clicked' := start'.dispatch (.trigger .spriteClicked)
    clicked.1.sprite.transform.position = clicked'.1.sprite.transform.position := by
  intro config config' start start' clicked clicked'
  have hnew : start.IsNew config := Stage.isNew_build (by decide) _
  have hnew' : start'.IsNew config' := Stage.isNew_build (by decide) _
  have hclick : start.operateTimed? (.input .flagClicked) = some (Stage.accepted (Stage.stamped clicked)) :=
    rfl
  have hclick' : start'.operateTimed? (.input .spriteClicked)
      = some (Stage.accepted (Stage.stamped clicked')) := rfl
  have hrow : start.Journal [⟨.input .flagClicked, start, clicked.1, clicked.2⟩] clicked.1 :=
    .single (.input rfl)
  have hrow' : start'.Journal [⟨.input .spriteClicked, start', clicked'.1, clicked'.2⟩]
      clicked'.1 := .single (.input rfl)
  obtain ⟨-, -, -, hagree⟩ := ((Execution.new hnew).operate hclick).random_points_agree
    ((Execution.new hnew').operate hclick') rfl rfl rfl
  exact hagree _ _ _ _ hnew hrow hnew' hrow' 0 _ _ rfl rfl

end SpriteStage

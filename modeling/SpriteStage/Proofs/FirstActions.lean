import Mathlib.Algebra.Order.BigOperators.Group.List
import Mathlib.Algebra.Order.Group.Nat
import SpriteStage.Proofs.RandomPoints
import SpriteStage.Proofs.Refusals
import SpriteStage.Proofs.StepOrder
set_option autoImplicit false

/-! # The first real action

A trigger is to start every group in which it stands and which has something else to do, from its
first action on that is no trigger; that action comes at once (`Program.StartsActions`).

The plan leaves out one trigger at the head of a group, so this is kept just as long as none of the
groups begins with two of them (`Program.startsActions_iff`). Behind a second trigger the first
action is delayed by a step, and a group of two triggers and nothing else is started for nothing. -/

namespace SpriteStage

/-! ## What a trigger is to start -/

namespace Group

/-- Whether a group has anything to do but triggers. -/
def hasAction (g : Group) : Bool := g.any (!·.isTrigger)

/-- A group from its first action on that is no trigger. -/
def fromFirstAction (g : Group) : List Action := g.dropWhile (·.isTrigger)

/-- Whether two triggers stand at the head of a group. -/
def beginsWithTwoTriggers : Group → Bool
  | first :: second :: _ => first.isTrigger && second.isTrigger
  | _ => false

theorem fromFirstAction_isEmpty (g : Group) : g.fromFirstAction.isEmpty = !g.hasAction := by
  induction g with
  | nil => rfl
  | cons first rest ih =>
      cases hfirst : first.isTrigger with
      | true => simpa [fromFirstAction, hasAction, hfirst] using ih
      | false => simp [fromFirstAction, hasAction, hfirst]

theorem head?_fromFirstAction (g : Group) : g.fromFirstAction.head? = g.find? (!·.isTrigger) := by
  induction g with
  | nil => rfl
  | cons first rest ih =>
      cases hfirst : first.isTrigger with
      | true => simpa [fromFirstAction, hfirst] using ih
      | false => simp [fromFirstAction, hfirst]

/-- With a single trigger at its head there is nothing else to leave out. -/
theorem withoutLeadingTrigger_eq {g : Group} (h : g.beginsWithTwoTriggers = false) :
    g.withoutLeadingTrigger = g.fromFirstAction := by
  match g with
  | [] => rfl
  | [first] =>
      cases hfirst : first.isTrigger <;> simp [withoutLeadingTrigger, fromFirstAction, hfirst]
  | first :: second :: rest =>
      cases hfirst : first.isTrigger with
      | false => simp [withoutLeadingTrigger, fromFirstAction, hfirst]
      | true =>
          have hsecond : second.isTrigger = false := by
            simpa [beginsWithTwoTriggers, hfirst] using h
          simp [withoutLeadingTrigger, fromFirstAction, hfirst, hsecond]

/-- Of two triggers at its head one is left. -/
theorem length_fromFirstAction_lt {g : Group} (h : g.beginsWithTwoTriggers = true) :
    g.fromFirstAction.length < g.withoutLeadingTrigger.length := by
  match g with
  | first :: second :: rest =>
      obtain ⟨hfirst, hsecond⟩ := Bool.and_eq_true_iff.1 h
      have hle := (rest.dropWhile_suffix (·.isTrigger)).length_le
      simpa [withoutLeadingTrigger, fromFirstAction, hfirst, hsecond] using Nat.lt_succ_of_le hle

/-- Only groups that begin with two triggers are not cut where they should be. -/
theorem length_fromFirstAction_le (g : Group) :
    g.fromFirstAction.length ≤ g.withoutLeadingTrigger.length := by
  cases h : g.beginsWithTwoTriggers with
  | false => exact Nat.le_of_eq (congrArg List.length (withoutLeadingTrigger_eq h).symm)
  | true => exact Nat.le_of_lt (length_fromFirstAction_lt h)

end Group

namespace Program

/-- The runs that a trigger is to start: of every group in which it stands and that has anything to
    do but triggers, in order, all from its first action on that is none. -/
def actionRuns (p : Program) (event : Trigger) : List (List Action) :=
  ((p.groupsFor event).filter (·.hasAction)).map (·.fromFirstAction)

/-- The actions that a trigger is to perform at once: the first one of each group that is no
    trigger. -/
def firstActions (p : Program) (event : Trigger) : List Action :=
  (p.groupsFor event).filterMap (·.find? (!·.isTrigger))

variable {p : Program} {event : Trigger} {playing : Bool}

theorem actionRuns_eq (p : Program) (event : Trigger) :
    p.actionRuns event
      = ((p.groupsFor event).map (·.fromFirstAction)).filter (!·.isEmpty) := by
  rw [actionRuns, List.filter_map]
  congr 2
  funext g
  simp [Group.fromFirstAction_isEmpty]

/-- The first actions are those with which the runs begin. -/
theorem filterMap_head?_actionRuns (p : Program) (event : Trigger) :
    (p.actionRuns event).filterMap List.head? = p.firstActions event := by
  rw [actionRuns_eq, firstActions]
  induction p.groupsFor event with
  | nil => rfl
  | cons g rest ih =>
      have hhead := g.head?_fromFirstAction
      rw [List.map_cons, List.filterMap_cons, ← hhead]
      cases hcut : g.fromFirstAction with
      | nil => exact ih
      | cons first later => exact congrArg (first :: ·) ih

theorem begins_of_mem_actionRuns {actions : List Action} (h : actions ∈ p.actionRuns event) :
    ∃ first rest, actions = first :: rest ∧ first.isTrigger = false := by
  obtain ⟨g, hg, rfl⟩ := List.mem_map.1 h
  have hsome := (List.mem_filter.1 hg).2
  have hempty := g.fromFirstAction_isEmpty
  have hhead := g.head?_fromFirstAction
  cases hcut : g.fromFirstAction with
  | nil =>
      rw [hcut, hsome] at hempty
      cases hempty
  | cons first rest =>
      rw [hcut] at hhead
      exact ⟨first, rest, rfl, by simpa using List.find?_some hhead.symm⟩

/-- The plan for a trigger, unless the flag is busy. -/
theorem plan_of_free (h : p.plan (.trigger event) playing ≠ .ignore .busy) :
    p.plan (.trigger event) playing
      = .ofRuns (((p.groupsFor event).map (·.withoutLeadingTrigger)).filter (!·.isEmpty)) := by
  simp only [plan] at h ⊢
  split at h
  · exact absurd rfl h
  · rename_i hfree
    rw [if_neg hfree]

end Program

theorem Plan.ofRuns_inj {runs runs' : List (List Action)} (h : Plan.ofRuns runs = .ofRuns runs') :
    runs = runs' := by
  unfold ofRuns at h
  cases runs <;> cases runs' <;> simp_all

/-- Where a group begins with two triggers something is started that should not be. -/
theorem Group.all_withoutLeadingTrigger_eq {groups : List Group}
    (h : (groups.map (·.withoutLeadingTrigger)).filter (!·.isEmpty)
      = (groups.map (·.fromFirstAction)).filter (!·.isEmpty)) :
    ∀ g ∈ groups, g.beginsWithTwoTriggers = false := by
  -- all in all the runs would be too long
  have hlength := congrArg (·.flatten.length) h
  simp only [List.flatten_filter_not_isEmpty, List.length_flatten, List.map_map] at hlength
  intro g hg
  rw [← Bool.not_eq_true]
  intro htwo
  have hlt := List.sum_lt_sum (fun g : Group => g.fromFirstAction.length)
    (fun g => g.withoutLeadingTrigger.length) (fun g _ => g.length_fromFirstAction_le)
    ⟨g, hg, g.length_fromFirstAction_lt htwo⟩
  exact Nat.ne_of_gt hlt hlength

/-! ## First steps -/

namespace Stage

/-- The runs on the table, as far as they are numbered, with their actions. -/
def actionsOf (s : Stage) (id : RunId) : Option (List Action) := (s.runs.find? id).map (·.actions)

/-- A step leaves the actions of all other runs as they are. -/
theorem actionsOf_runStep (s : Stage) (run : RunId) (index : Nat) {id : RunId} (hne : id ≠ run) :
    (s.runStep run index).1.actionsOf id = s.actionsOf id := by
  rcases s.runStep_cases run index with ⟨heq, -⟩ | ⟨r, hi, hr, ⟨-, heq⟩ | ⟨-, heq⟩⟩
  · rw [heq]
  · rw [heq]
    show ((s.runs.moveTo run index).find? id).map (·.actions) = _
    rw [RunTable.find?_moveTo, Option.map_map]
    unfold actionsOf
    congr 1
    funext r
    by_cases hid : r.id = run <;> simp [hid]
  · rw [heq]
    show ((s.runs.remove run).find? id).map (·.actions) = _
    rw [RunTable.find?_remove_of_ne _ hne]
    rfl

/-- The actions of first steps are those with which the runs begin. -/
theorem map_action_firstPerformances (s : Stage) {ids : List RunId} (hids : ids.Nodup) :
    (s.firstPerformances ids).map (·.action)
      = (ids.map s.actionsOf).filterMap (·.bind List.head?) := by
  induction ids generalizing s with
  | nil => rfl
  | cons run rest ih =>
      obtain ⟨hrun, hrest⟩ := List.nodup_cons.1 hids
      have hfirst : (s.stepPerformances run 0).map (·.action)
          = ((s.actionsOf run).bind List.head?).toList := by
        unfold stepPerformances RunTable.enter? actionsOf
        cases s.runs.find? run with
        | none => rfl
        | some r => cases hactions : r.actions <;> simp [hactions]
      have hothers : rest.map (s.runStep run 0).1.actionsOf = rest.map s.actionsOf :=
        List.map_congr_left fun id hid => s.actionsOf_runStep run 0 fun heq => hrun (heq ▸ hid)
      rw [firstPerformances, List.map_append, hfirst, ih _ hrest, hothers, List.map_cons,
        List.filterMap_cons]
      cases (s.actionsOf run).bind List.head? <;> rfl

/-- Runs that are started have their actions on the table. -/
theorem map_actionsOf_startRuns (s : Stage) (h : s.runs.Ascending) (origin : RunOrigin)
    (runs : List (List Action)) :
    (s.startRuns origin runs).1.runs.Ascending ∧
      (∀ r ∈ s.runs.runs, r ∈ (s.startRuns origin runs).1.runs.runs) ∧
      (s.startRuns origin runs).2.1.map (s.startRuns origin runs).1.actionsOf
        = runs.map some := by
  induction runs generalizing s with
  | nil => exact ⟨h, fun _ hr => hr, rfl⟩
  | cons actions rest ih =>
      obtain ⟨hascending, hkept, hrest⟩ := ih (s.startRun origin actions) (h.start origin actions)
      rw [startRuns_cons]
      refine ⟨hascending, fun r hr => hkept r (List.mem_append_left _ hr), ?_⟩
      have hnew : (⟨s.runs.lastId + 1, origin, actions, none⟩ : Run)
          ∈ (s.startRun origin actions).runs.runs := List.mem_append_right _ List.mem_cons_self
      have hfound := hascending.find?_of_mem (hkept _ hnew)
      rw [List.map_cons, List.map_cons, hrest, actionsOf, hfound]
      rfl

/-- A click that starts runs performs the actions with which they begin, in order. -/
theorem map_action_clickPerformances {s : Stage} (h : Reachable s) {origin : RunOrigin}
    {runs : List (List Action)} (hplan : s.program.plan origin s.isPlaying = .start runs) :
    (s.clickPerformances origin).map (·.action) = runs.filterMap List.head? := by
  let remembered : Stage := { s with history := s.history.push (.capture s.sprite) }
  obtain ⟨-, -, hruns⟩ :=
    remembered.map_actionsOf_startRuns h.continued.ascending origin runs
  obtain ⟨-, hsorted, -⟩ := remembered.startRuns_ids origin runs
  have hids : (remembered.startRuns origin runs).2.1.Nodup := hsorted.imp Nat.ne_of_lt
  have hfirst := (remembered.startRuns origin runs).1.map_action_firstPerformances hids
  rw [hruns, List.filterMap_map] at hfirst
  simp only [clickPerformances, hplan]
  exact hfirst

end Stage

/-! ## Main result -/

/-- On this stage the trigger performs the first action of every group that is no trigger, one after
    the other and at once: the clock stands still, and the events tell of these actions and of no
    others. Without such an action nothing happens, and nothing is remembered. -/
structure Stage.AnswersAtOnce (s : Stage) (event : Trigger) : Prop where
  performs : ∃ row : List Performance, row.map (·.action) = s.program.firstActions event ∧
    s.Performs row (s.dispatch (.trigger event)).1 (s.dispatch (.trigger event)).2 ∧
    Carries s.sprite row (s.dispatch (.trigger event)).1.sprite
  nothing : s.program.firstActions event = [] →
    s.dispatch (.trigger event) = (s, [.triggerIgnored (some event) .noMatchingGroup])

/-- A trigger starts one run for each group in which it stands and that has anything to do but
    triggers, in order. Every run is all of its group but the triggers at the head, and so it begins
    with an action that is none. The trigger is ignored just if no group in which it stands has
    anything else to do. On every stage that can be reached the first actions come at once. -/
structure Program.StartsActions (p : Program) (event : Trigger) (playing : Bool) : Prop where
  plan_eq : p.plan (.trigger event) playing = .ofRuns (p.actionRuns event)
  begins : ∀ runs, p.plan (.trigger event) playing = .start runs → ∀ actions ∈ runs,
    ∃ first rest, actions = first :: rest ∧ first.isTrigger = false
  ignored_iff : p.plan (.trigger event) playing = .ignore .noMatchingGroup ↔
    ∀ g ∈ p.groupsFor event, g.hasAction = false
  answers : ∀ s, Reachable s → s.program = p → s.isPlaying = playing → s.AnswersAtOnce event

theorem Reachable.answersAtOnce {s : Stage} (h : Reachable s) {event : Trigger}
    (hplan : s.program.plan (.trigger event) s.isPlaying = .ofRuns (s.program.actionRuns event)) :
    s.AnswersAtOnce event := by
  have hfirst := s.program.filterMap_head?_actionRuns event
  refine ⟨⟨s.clickPerformances (.trigger event), ?_, s.performs_dispatch _, s.carries_dispatch _⟩,
    fun hnone => ?_⟩
  · unfold Plan.ofRuns at hplan
    split at hplan
    · rename_i hempty
      rw [← hfirst, List.isEmpty_iff.1 hempty, Stage.clickPerformances, hplan]
      rfl
    · rw [Stage.map_action_clickPerformances h hplan, hfirst]
  · have hempty : s.program.actionRuns event = [] := by
      rw [List.eq_nil_iff_forall_not_mem]
      intro actions hmem
      obtain ⟨first, rest, rfl, -⟩ := Program.begins_of_mem_actionRuns hmem
      rw [hnone, List.filterMap_eq_nil_iff] at hfirst
      cases hfirst _ hmem
    rw [hempty] at hplan
    exact Stage.dispatch_of_ignore hplan

theorem Program.StartsActions.of_plan_eq {p : Program} {event : Trigger} {playing : Bool}
    (h : p.plan (.trigger event) playing = .ofRuns (p.actionRuns event)) :
    p.StartsActions event playing where
  plan_eq := h
  begins runs hstart actions hmem := by
    rw [h] at hstart
    unfold Plan.ofRuns at hstart
    split at hstart
    · cases hstart
    · cases hstart
      exact begins_of_mem_actionRuns hmem
  ignored_iff := by
    have hempty : p.actionRuns event = [] ↔ ∀ g ∈ p.groupsFor event, g.hasAction = false := by
      simp [actionRuns, List.filter_eq_nil_iff]
    rw [h, ← hempty, Plan.ofRuns]
    split
    · rename_i hnone
      simpa using hnone
    · rename_i hsome
      simpa using hsome
  answers := by
    rintro s hs rfl rfl
    exact hs.answersAtOnce h

/-- A trigger for which the flag is not busy starts the real actions at once, just if none of the
    groups in which it stands begins with two triggers. -/
theorem Program.startsActions_iff {p : Program} {event : Trigger} {playing : Bool}
    (hfree : p.plan (.trigger event) playing ≠ .ignore .busy) :
    p.StartsActions event playing ↔
      ∀ g ∈ p.groupsFor event, g.beginsWithTwoTriggers = false := by
  have hplan := plan_of_free hfree
  constructor
  · intro hstarts
    have heq := hplan.symm.trans hstarts.plan_eq
    rw [actionRuns_eq] at heq
    exact Group.all_withoutLeadingTrigger_eq (Plan.ofRuns_inj heq)
  · intro hgroups
    refine .of_plan_eq ?_
    rw [hplan, actionRuns_eq,
      List.map_congr_left fun g hg => Group.withoutLeadingTrigger_eq (hgroups g hg)]

/-- Groups with the trigger at the head, at the end, and on its own. -/
theorem startsActions_of_three_groups :
    let p : Program := ⟨[[.trigger .flagClicked, .move 10, .move 10],
      [.move 5, .trigger .flagClicked, .trigger .spaceClicked], [.trigger .flagClicked]], none⟩
    p.plan (.trigger .flagClicked) false ≠ .ignore .busy ∧ p.StartsActions .flagClicked false ∧
      p.firstActions .flagClicked = [.move 10, .move 5] := by
  intro p
  have hfree : p.plan (.trigger .flagClicked) false ≠ .ignore .busy := by
    rw [Ne, Program.plan_eq_busy_iff]
    decide
  refine ⟨hfree, (Program.startsActions_iff hfree).2 ?_, rfl⟩
  decide +kernel

/-- A group of two triggers has nothing else to do, and yet the flag starts it: the sprite is
    remembered for nothing. With an action behind them the run begins with the second trigger, and
    the first action comes no earlier than after a step. -/
theorem run_of_second_trigger :
    let p : Program := ⟨[[.trigger .flagClicked, .trigger .spriteClicked]], none⟩
    let q : Program := ⟨[[.trigger .flagClicked, .trigger .spriteClicked, .move 10]], none⟩
    (p.plan (.trigger .flagClicked) false = .start [[.trigger .spriteClicked]] ∧
      (∀ g ∈ p.groupsFor .flagClicked, g.hasAction = false) ∧
      ((Stage.new p).dispatch (.trigger .flagClicked)).1.history.depth = 1 ∧
      ¬ p.StartsActions .flagClicked false) ∧
    q.plan (.trigger .flagClicked) false = .start [[.trigger .spriteClicked, .move 10]] ∧
      ((Stage.new q).dispatch (.trigger .flagClicked)).2.filter (·.isOfAction)
        = [.stepApplied 1 0 "sprite_clicked"] ∧
      ¬ q.StartsActions .flagClicked false := by
  intro p q
  have hp : p.plan (.trigger .flagClicked) false = .start [[.trigger .spriteClicked]] := rfl
  have hq : q.plan (.trigger .flagClicked) false = .start [[.trigger .spriteClicked, .move 10]] :=
    rfl
  refine ⟨⟨hp, by decide +kernel, rfl, fun hstarts => ?_⟩, hq, rfl, fun hstarts => ?_⟩
  · obtain ⟨_, _, heq, hfirst⟩ := hstarts.begins _ hp _ List.mem_cons_self
    cases heq
    cases hfirst
  · obtain ⟨_, _, heq, hfirst⟩ := hstarts.begins _ hq _ List.mem_cons_self
    cases heq
    cases hfirst

end SpriteStage

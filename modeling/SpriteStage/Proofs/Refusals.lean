import SpriteStage.Proofs.Answers
set_option autoImplicit false

/-! # Inputs that come to nothing

An input is refused if it asks for an action that cannot be read, or for the cats to walk while the
window of the demo is closed; it is ignored if it is a click that starts no run. Either way the stage
that is left is the one before (`Stage.refused_or_ignored`): an attempt would keep what it had
changed before an error, but both errors come before all changes. The flag is busy just while a run
is under way, and nothing else ever is. -/

namespace SpriteStage

/-! ## When a click is ignored -/

/-- Only the flag is ever busy, and it is so while something runs. -/
theorem Program.plan_eq_busy_iff {p : Program} {origin : RunOrigin} {playing : Bool} :
    p.plan origin playing = .ignore .busy ↔ playing = true ∧ origin = .trigger .flagClicked := by
  have hruns : ∀ runs : List (List Action), Plan.ofRuns runs ≠ .ignore .busy := by
    intro runs
    unfold Plan.ofRuns
    split <;> simp
  cases origin with
  | runAll => simp [plan, hruns]
  | trigger event =>
      simp only [plan]
      split
      · rename_i hbusy
        simpa using hbusy
      · rename_i hfree
        simpa [hruns] using hfree

/-- Something runs if some run is under way. -/
theorem RunTable.isPlaying_iff {t : RunTable} :
    t.isPlaying = true ↔ ∃ run r, t.find? run = some r := by
  unfold isPlaying find?
  cases t.runs with
  | nil => simp
  | cons first rest =>
      simp only [List.isEmpty_cons, Bool.not_false, true_iff]
      exact ⟨first.id, first, List.find?_cons_of_pos (by simp)⟩

theorem StageInput.eq_flagClicked {input : StageInput}
    (h : input.origin? = some (.trigger .flagClicked)) : input = .flagClicked := by
  cases input with
  | flagClicked => rfl
  | keyDown key => cases key <;> simp [StageInput.origin?] at h
  | pointerMoved _ | spriteClicked | runAll | undo | reset | clicked _ | spriteCentre _
  | viewportResized _ | demoOpen | demoClose | demoStart => simp [StageInput.origin?] at h

namespace Stage

variable {s s' : Stage} {input : StageInput} {events : List StageEvent} {trigger : Option Trigger}
  {reason : IgnoreReason}

/-- A click tells that it is ignored just if nothing is to be started, and then it does nothing
    else. -/
theorem triggerIgnored_mem_dispatch {origin : RunOrigin} :
    .triggerIgnored trigger reason ∈ (s.dispatch origin).2 ↔
      s.program.plan origin s.isPlaying = .ignore reason ∧ trigger = origin.trigger? := by
  cases hplan : s.program.plan origin s.isPlaying with
  | ignore reason' =>
      rw [dispatch_of_ignore hplan]
      simp [eq_comm, and_comm]
  | start runs =>
      rw [dispatch_of_start hplan]
      simp only [reduceCtorEq, false_and, iff_false]
      intro hmem
      rcases List.mem_append.1 hmem with hstarted | hstep
      · rcases List.mem_cons.1 hstarted with hpushed | hstarted
        · cases hpushed
        · cases startRuns_startsRun _ origin runs _ hstarted
      · cases firstSteps_isOfStep _ _ _ hstep

/-- Nothing but a click is ever ignored. -/
theorem Answers.ignored (ha : s.Answers input s' events)
    (hmem : .triggerIgnored trigger reason ∈ events) :
    ∃ origin, input.origin? = some origin ∧
      s.program.plan origin s.isPlaying = .ignore reason ∧ s' = s ∧
      events = [.triggerIgnored trigger reason] := by
  cases ha with
  | @click _ origin horigin =>
      obtain ⟨hplan, rfl⟩ := triggerIgnored_mem_dispatch.1 hmem
      rw [dispatch_of_ignore hplan]
      exact ⟨origin, horigin, hplan, rfl, rfl⟩
  | undo => rcases s.undo_tells _ hmem with ⟨_, _, hother⟩ | ⟨_, hother⟩ <;> cases hother
  | reset => rcases s.reset_tells _ hmem with ⟨_, _, hother⟩ | hother <;> cases hother
  | otherKey _ | point _ | once _ | calibrate _ | resize _ | openDemo | closeDemo | startDemo _ _
  | walking _ _ => simp at hmem

/-! ## When an input is refused -/

/-- What is refused, and why. -/
theorem handle_refuses_iff {e : StageError} :
    (s.handle input).2 = .error e ↔
      (∃ descriptor cause, input = .clicked descriptor ∧
        Action.ofDescriptor descriptor = .error cause ∧ e = .invalidAction cause) ∨
      (input = .demoStart ∧ s.demo.isOpen = false ∧ e = .demoNotOpen) := by
  constructor
  · intro herror
    exact (refused_cases (Prod.ext rfl herror)).2
  · rintro (⟨descriptor, cause, rfl, haction, rfl⟩ | ⟨rfl, hclosed, rfl⟩)
    · rw [handle_clicked, haction]
    · exact congrArg Prod.snd (startDemo_of_closed hclosed)

end Stage

/-! ## Main result -/

/-- An input is refused just if it asks for an action that cannot be read, with the error of the
    reading, or for the cats to walk while the window is closed. The stage that is left beside an
    error is the one before, in all of its parts: nothing is changed before an input is refused. So
    is the one that is left when the input is told to be ignored, and then nothing else is told. The
    flag is ignored as busy just if some run is under way, and no other input ever is. -/
theorem Stage.refused_or_ignored (s : Stage) (input : StageInput) :
    (∀ e, (s.handle input).2 = .error e ↔
      (∃ descriptor cause, input = .clicked descriptor ∧
        Action.ofDescriptor descriptor = .error cause ∧ e = .invalidAction cause) ∨
      (input = .demoStart ∧ s.demo.isOpen = false ∧ e = .demoNotOpen)) ∧
    (∀ s' e, s.handle input = (s', .error e) → s' = s) ∧
    (∀ s' events trigger reason, s.handle input = (s', .ok events) →
      .triggerIgnored trigger reason ∈ events →
        s' = s ∧ events = [.triggerIgnored trigger reason]) ∧
    (s.handle .flagClicked = (s, .ok [.triggerIgnored (some .flagClicked) .busy]) ↔
      ∃ run r, s.runs.find? run = some r) ∧
    ∀ s' events trigger, s.handle input = (s', .ok events) →
      .triggerIgnored trigger .busy ∈ events → input = .flagClicked := by
  refine ⟨fun e => handle_refuses_iff, fun s' e => eq_of_refused,
    fun s' events trigger reason hok hmem => ?_, ?_, fun s' events trigger hok hmem => ?_⟩
  · obtain ⟨_, -, -, hstage, hevents⟩ := (answers_of_handle hok).ignored hmem
    exact ⟨hstage, hevents⟩
  · rw [← RunTable.isPlaying_iff]
    constructor
    · intro hbusy
      obtain ⟨origin, horigin, hplan, -⟩ :=
        (answers_of_handle hbusy).ignored List.mem_cons_self
      exact (Program.plan_eq_busy_iff.1 hplan).1
    · intro hplaying
      have hplan : s.program.plan (.trigger .flagClicked) s.isPlaying = .ignore .busy :=
        Program.plan_eq_busy_iff.2 ⟨hplaying, rfl⟩
      exact congrArg accepted (dispatch_of_ignore hplan)
  · obtain ⟨origin, horigin, hplan, -⟩ := (answers_of_handle hok).ignored hmem
    obtain ⟨-, rfl⟩ := Program.plan_eq_busy_iff.1 hplan
    exact StageInput.eq_flagClicked horigin

/-- A second click on the flag comes while the run of the first is under way, and the cats cannot
    walk in a closed window. -/
theorem refused_or_ignored_of_second_click :
    let start := Stage.new ⟨[[.trigger .flagClicked, .move 10, .move 10]], none⟩
    let s := (start.dispatch (.trigger .flagClicked)).1
    s.handle .flagClicked = (s, .ok [.triggerIgnored (some .flagClicked) .busy]) ∧
      ∃ s', s.handle .demoStart = (s', .error .demoNotOpen) ∧ s' = s := by
  intro start s
  have hrefused : (s.handle .demoStart).2 = .error .demoNotOpen :=
    ((s.refused_or_ignored .demoStart).1 _).2 (Or.inr ⟨rfl, rfl, rfl⟩)
  have hdemo : s.handle .demoStart = (_, .error .demoNotOpen) := Prod.ext rfl hrefused
  exact ⟨(s.refused_or_ignored .flagClicked).2.2.2.1.2 ⟨1, _, rfl⟩, _, hdemo,
    (s.refused_or_ignored .demoStart).2.1 _ _ hdemo⟩

end SpriteStage

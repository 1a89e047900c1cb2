import SpriteStage.Proofs.Execution
set_option autoImplicit false

/-! # Versions of the cells

Each write to a cell raises its version, and no move lowers one (`Stage.Moves.version_le`). A
clearing carries the version of the write that asked for it, so the versions in the agenda are never
ahead of the cells (`Reachable.dated`), and after one more write all clearings that are scheduled
are stale.

Most of what happens on a stage touches neither the sprite nor the clearings. What does is an
action, the firing of a clearing, a reset, and an undo that puts something back;
`Stage.Moves.cells_cases` says that a property of sprite and clearings has to be looked at there
only. -/

namespace SpriteStage

/-! ## What an action writes -/

namespace Sprite

@[simp] theorem version_mapTransform (s : Sprite) (f : Transform → Transform) (cell : Cell) :
    (s.mapTransform f).version cell = s.version cell := by
  cases cell <;> rfl

theorem version_le_say (s : Sprite) (speech : Speech) (cell : Cell) :
    s.version cell ≤ (s.say speech).version cell := by
  cases cell with
  | speech => exact Nat.le_succ _
  | glide => exact Nat.le_refl _

theorem version_le_tagGlide (s : Sprite) (tag : Option GlideTag) (cell : Cell) :
    s.version cell ≤ (s.tagGlide tag).version cell := by
  cases cell with
  | speech => exact Nat.le_refl _
  | glide => exact Nat.le_succ _

theorem version_le_clear (s : Sprite) (cleared cell : Cell) :
    s.version cell ≤ (s.clear cleared).version cell := by
  cases cleared with
  | speech => exact s.version_le_say _ cell
  | glide => exact s.version_le_tagGlide _ cell

theorem version_le_reset (s : Sprite) (cell : Cell) : s.version cell ≤ s.reset.version cell := by
  cases cell <;> exact Nat.le_succ _

end Sprite

theorem Memory.version_le_restore (m : Memory) (s : Sprite) (cell : Cell) :
    s.version cell ≤ (m.restore s).version cell :=
  ({ s with transform := m.transform } : Sprite).version_le_say m.speech cell

section Action

variable (action : Action) (around : Surroundings) (extent : Float) (g : Generator) (s : Sprite)

theorem Action.version_le_perform (cell : Cell) :
    s.version cell ≤ (action.perform around extent g s).sprite.version cell := by
  cases action <;> cases cell <;>
    simp [perform, Sprite.version, Sprite.mapTransform, Sprite.startGlide, Sprite.tagGlide,
      Sprite.say, Versioned.write]

/-- A request to clear a cell carries the version that the cell has after the action. -/
theorem Action.version_of_clear {request : ClearRequest}
    (h : (action.perform around extent g s).clear = some request) :
    request.version = (action.perform around extent g s).sprite.version request.cell := by
  cases action with
  | speak message bubble timeoutMs =>
      obtain ⟨ms, -, rfl⟩ := Option.map_eq_some_iff.1 h
      rfl
  | glide _ _ _ | glideBy _ _ _ =>
      cases h
      rfl
  | glideRandom _ =>
      simp only [perform] at h ⊢
      rw [← Option.some.inj h]
      rfl
  | _ => cases h

/-- An action leaves the bubble alone, or it shows a bubble and asks for it to be cleared if it has
    a timeout. -/
theorem Action.perform_speech_cases :
    (action.perform around extent g s).sprite.speech = s.speech ∨
    ∃ message bubble timeoutMs, action = .speak message bubble timeoutMs ∧
      (action.perform around extent g s).sprite.speech
        = s.speech.write ⟨message, timeoutMs.getD Speech.untimedMs, bubble == .think⟩ ∧
      (action.perform around extent g s).clear = timeoutMs.map
        (⟨.speech, ·, (action.perform around extent g s).sprite.speech.version⟩) := by
  cases action with
  | speak message bubble timeoutMs => exact Or.inr ⟨message, bubble, timeoutMs, rfl, rfl, rfl⟩
  | _ => exact Or.inl rfl

end Action

/-! ## Sprite and clearings -/

/-- The two stages have the same sprite and the same clearings in the agenda. -/
structure SameCells (s s' : Stage) : Prop where
  sprite : s'.sprite = s.sprite
  clears : ∀ e, e.timer.isClear = true → (e ∈ s'.agenda.entries ↔ e ∈ s.agenda.entries)

namespace SameCells

variable {s s' : Stage}

theorem of_eq (hsprite : s'.sprite = s.sprite) (hagenda : s'.agenda = s.agenda) : SameCells s s' :=
  ⟨hsprite, fun _ _ => by rw [hagenda]⟩

theorem of_schedule {due : Instant} {timer : Timer} (htimer : timer.isClear = false)
    (hsprite : s'.sprite = s.sprite) (hagenda : s'.agenda = s.agenda.schedule due timer) :
    SameCells s s' := by
  refine ⟨hsprite, fun e he => ?_⟩
  rw [hagenda, Agenda.mem_schedule]
  refine or_iff_right fun heq => ?_
  rw [heq, htimer] at he
  cases he

theorem of_cancel {condition : Timer → Bool}
    (hcondition : ∀ timer : Timer, timer.isClear = true → condition timer = false)
    (hsprite : s'.sprite = s.sprite) (hagenda : s'.agenda = s.agenda.cancel condition) :
    SameCells s s' := by
  refine ⟨hsprite, fun e he => ?_⟩
  rw [hagenda, Agenda.mem_cancel]
  exact and_iff_left (hcondition e.timer he)

theorem of_arrive {entry : Appointment} {rest : List Appointment}
    (hentries : s.agenda.entries = entry :: rest) (htimer : entry.timer.isClear = false) :
    SameCells s (s.arrive entry rest) := by
  refine ⟨rfl, fun e he => ?_⟩
  rw [hentries, List.mem_cons]
  refine (or_iff_right fun heq => ?_).symm
  rw [heq, htimer] at he
  cases he

end SameCells

namespace Stage

section Cells

variable {P : Stage → Prop} {s s' : Stage}

/-- What an action keeps is kept by a step, if it depends on nothing but sprite and clearings. -/
theorem runStep_cells (same : ∀ {s s'}, SameCells s s' → P s → P s')
    (perform : ∀ {s} action, P s → P (s.perform action)) (hs : P s) (run : RunId) (index : Nat) :
    P (s.runStep run index).1 := by
  rcases s.runStep_cases run index with ⟨heq, -⟩ | ⟨r, hi, -, ⟨-, heq⟩ | ⟨-, heq⟩⟩
  · rwa [heq]
  · rw [heq]
    refine same ?_ (perform r.actions[index] hs)
    exact .of_schedule rfl rfl rfl
  · rw [heq]
    refine same ?_ (perform r.actions[index] hs)
    exact .of_eq rfl rfl

theorem dispatch_cells (same : ∀ {s s'}, SameCells s s' → P s → P s')
    (perform : ∀ {s} action, P s → P (s.perform action)) (hs : P s) (origin : RunOrigin) :
    P (s.dispatch origin).1 := by
  cases hplan : s.program.plan origin s.isPlaying with
  | ignore reason => rwa [dispatch_of_ignore hplan]
  | start runs =>
      rw [dispatch_of_start hplan]
      have hstarted : P (s.startAll origin runs).1 := by
        rw [startAll_eq]
        refine same ?_ hs
        exact .of_eq rfl rfl
      generalize (s.startAll origin runs).1 = mid at hstarted ⊢
      generalize (s.startAll origin runs).2.1 = ids
      induction ids generalizing mid with
      | nil => exact hstarted
      | cons run rest ih =>
          rw [firstSteps_cons]
          exact ih _ (runStep_cells same perform hstarted run 0)

theorem fire_cells (same : ∀ {s s'}, SameCells s s' → P s → P s')
    (perform : ∀ {s} action, P s → P (s.perform action))
    (clear : ∀ {s entry rest cell version}, s.agenda.entries = entry :: rest →
      entry.timer = .clear cell version → P s →
        P ((s.arrive entry rest).fireClear cell version).1)
    {entry : Appointment} {rest : List Appointment} (hentries : s.agenda.entries = entry :: rest)
    (hs : P s) : P ((s.arrive entry rest).fire entry.timer).1 := by
  cases htimer : entry.timer with
  | step run index =>
      have harrive := same (.of_arrive hentries (by rw [htimer]; rfl)) hs
      exact runStep_cells same perform harrive run index
  | clear cell version => exact clear hentries htimer hs
  | demoTick session =>
      have harrive := same (.of_arrive hentries (by rw [htimer]; rfl)) hs
      rcases (s.arrive entry rest).fireDemoTick_cases session with ⟨-, heq⟩ | ⟨-, -, heq⟩
      · rwa [fire, heq]
      · rw [fire, heq]
        refine same ?_ harrive
        exact .of_schedule rfl rfl rfl

/-- A property of sprite and clearings is kept by a move if it is kept by actions, by a reset and by
    the firing of clearings, unless the move is an undo that puts something back. -/
theorem Moves.cells_cases {events : List StageEvent} {started : List Announcement}
    (m : Moves s events started s') (same : ∀ {s s'}, SameCells s s' → P s → P s')
    (perform : ∀ {s} action, P s → P (s.perform action)) (reset : ∀ {s}, P s → P s.reset.1)
    (clear : ∀ {s entry rest cell version}, s.agenda.entries = entry :: rest →
      entry.timer = .clear cell version → P s →
        P ((s.arrive entry rest).fireClear cell version).1) :
    (P s → P s') ∨ (s.history.memories ≠ [] ∧ s' = s.undo.1) := by
  cases m with
  | click origin => exact Or.inl fun hs => dispatch_cells same perform hs origin
  | once action => exact Or.inl (perform action)
  | undo =>
      rcases s.undo_cases with ⟨-, heq⟩ | ⟨newest, rest, hmemories, -⟩
      · rw [heq]
        exact Or.inl id
      · exact Or.inr ⟨by simp [hmemories], rfl⟩
  | reset => exact Or.inl reset
  | closeDemo =>
      refine Or.inl (same ?_)
      rcases s.closeDemo_agenda with hagenda | hagenda
      · exact .of_cancel Timer.isDemoTick_of_isClear rfl hagenda
      · exact .of_eq rfl hagenda
  | startDemo _ _ => exact Or.inl (same (.of_schedule rfl rfl rfl))
  | fire hentries => exact Or.inl (fire_cells same perform clear hentries)
  | nothing | replace _ | point _ | calibrate _ | resize _ | openDemo | wait _ _ =>
      exact Or.inl (same (.of_eq rfl rfl))

end Cells

/-! ## Versions do not fall -/

theorem version_le_perform (s : Stage) (action : Action) (cell : Cell) :
    s.sprite.version cell ≤ (s.perform action).sprite.version cell := by
  rw [perform_eq, scheduleClear_sprite]
  exact action.version_le_perform _ _ _ _ cell

theorem version_le_fireClear (s : Stage) (cleared : Cell) (version : Nat) (cell : Cell) :
    s.sprite.version cell ≤ (s.fireClear cleared version).1.sprite.version cell := by
  rcases s.fireClear_cases cleared version with heq | heq
  · rw [heq]
    exact s.sprite.version_le_clear cleared cell
  · exact Nat.le_of_eq (by rw [heq])

theorem version_le_undo (s : Stage) (cell : Cell) :
    s.sprite.version cell ≤ s.undo.1.sprite.version cell := by
  rcases s.undo_cases with ⟨-, heq⟩ | ⟨newest, rest, -, heq⟩
  · exact Nat.le_of_eq (by rw [heq])
  · rw [heq]
    exact newest.version_le_restore s.sprite cell

theorem Moves.version_le {s s' : Stage} {events : List StageEvent} {started : List Announcement}
    (m : Moves s events started s') (cell : Cell) :
    s.sprite.version cell ≤ s'.sprite.version cell := by
  have hcases := m.cells_cases (P := fun x => s.sprite.version cell ≤ x.sprite.version cell)
    (fun hsame h => by rwa [hsame.sprite])
    (fun action h => Nat.le_trans h (version_le_perform _ action cell))
    (fun h => Nat.le_trans h (Sprite.version_le_reset _ cell))
    (fun {s entry rest cleared version} _ _ h =>
      Nat.le_trans h ((s.arrive entry rest).version_le_fireClear cleared version cell))
  rcases hcases with hkept | ⟨-, rfl⟩
  · exact hkept (Nat.le_refl _)
  · exact s.version_le_undo cell

end Stage

/-! ## Clearings are not ahead -/

/-- No clearing is of a later write than the last one of its cell. -/
def Dated (s : Stage) : Prop :=
  ∀ e ∈ s.agenda.entries, ∀ cell version, e.timer = .clear cell version →
    version ≤ s.sprite.version cell

namespace Dated

variable {s s' : Stage}

/-- Clearings may go and versions may rise. -/
theorem frame (h : Dated s)
    (hclears : ∀ e ∈ s'.agenda.entries, e.timer.isClear = true → e ∈ s.agenda.entries)
    (hversion : ∀ cell, s.sprite.version cell ≤ s'.sprite.version cell) : Dated s' := by
  intro e he cell version htimer
  have hold := hclears e he (by rw [htimer]; rfl)
  exact Nat.le_trans (h e hold cell version htimer) (hversion cell)

theorem same (h : Dated s) (hsame : SameCells s s') : Dated s' :=
  h.frame (fun e he hclear => (hsame.clears e hclear).1 he)
    fun cell => Nat.le_of_eq (by rw [hsame.sprite])

/-- An action asks for the clearing of what it has just written. -/
theorem perform (h : Dated s) (action : Action) : Dated (s.perform action) := by
  have hversion := s.version_le_perform action
  cases hrequest : (s.performed action).clear with
  | none =>
      refine h.frame (fun e he _ => ?_) hversion
      rwa [Stage.perform_eq, hrequest] at he
  | some request =>
      have hagenda : (s.perform action).agenda
          = s.agenda.schedule (after s.now request.afterMs)
            (.clear request.cell request.version) := by
        rw [Stage.perform_eq, hrequest]
        rfl
      have hcurrent : request.version = (s.perform action).sprite.version request.cell := by
        rw [Stage.perform_eq, Stage.scheduleClear_sprite]
        exact action.version_of_clear _ _ _ _ hrequest
      intro e he cell version htimer
      rw [hagenda] at he
      rcases Agenda.mem_schedule.1 he with rfl | he
      · obtain ⟨rfl, rfl⟩ := Timer.clear.inj htimer
        exact Nat.le_of_eq hcurrent
      · exact Nat.le_trans (h e he cell version htimer) (hversion cell)

theorem undo (h : Dated s) : Dated s.undo.1 := by
  refine h.frame (fun e he _ => ?_) s.version_le_undo
  rcases s.undo_cases with ⟨-, heq⟩ | ⟨newest, rest, -, heq⟩
  · rwa [heq] at he
  · rw [heq] at he
    unfold Stage.beforeUndo at he
    split at he
    · exact (Agenda.mem_cancel.1 he).1
    · exact he

theorem reset (h : Dated s) : Dated s.reset.1 := by
  refine h.frame (fun e he _ => ?_) s.sprite.version_le_reset
  have hcancelled : e ∈ s.cancelRuns.1.agenda.entries := by
    rcases s.reset_agenda with hagenda | hagenda
    · rw [hagenda] at he
      exact (Agenda.mem_cancel.1 he).1
    · rwa [hagenda] at he
  exact (Agenda.mem_cancel.1 hcancelled).1

theorem fireClear (h : Dated s) {entry : Appointment} {rest : List Appointment}
    (hentries : s.agenda.entries = entry :: rest) (cell : Cell) (version : Nat) :
    Dated ((s.arrive entry rest).fireClear cell version).1 := by
  have harrive : Dated (s.arrive entry rest) :=
    h.frame (fun e he _ => hentries ▸ List.mem_cons_of_mem _ he) fun _ => Nat.le_refl _
  refine harrive.frame (fun e he _ => ?_) ((s.arrive entry rest).version_le_fireClear cell version)
  rcases (s.arrive entry rest).fireClear_cases cell version with heq | heq
  · rwa [heq] at he
  · rwa [heq] at he

end Dated

theorem Stage.Moves.dated {s s' : Stage} {events : List StageEvent} {started : List Announcement}
    (m : Moves s events started s') (h : Dated s) : Dated s' := by
  have hcases := m.cells_cases (P := Dated) (fun hsame hs => hs.same hsame)
    (fun action hs => hs.perform action) (fun hs => hs.reset)
    (fun hentries _ hs => hs.fireClear hentries _ _)
  rcases hcases with hkept | ⟨-, rfl⟩
  · exact hkept h
  · exact h.undo

theorem Stage.IsNew.dated {config : StageConfig} {s : Stage} (h : s.IsNew config) : Dated s := by
  obtain ⟨-, program, generator, -, rfl⟩ := h
  exact nofun

theorem Reachable.dated {s : Stage} (h : Reachable s) : Dated s :=
  h.induction (fun _ _ hnew => hnew.dated) fun _ _ _ _ hs hmove => hmove.dated hs

end SpriteStage

import SpriteStage.Proofs.Answers
import SpriteStage.Proofs.Versions
set_option autoImplicit false

/-! # Executions deed by deed

A deed is what touches the sprite or the clearings in the agenda: an action that is performed, by a
step of a run or outside any run, an undo that puts something back, a reset, and a clearing that
fires. One move can do several of them, for a click makes the first step of every run that it
starts. So a row of deeds (`Stage.Deeds`) is finer than a row of moves; between two deeds neither
the sprite nor the clearings change (`Stage.Unseen`).

Every execution has a chronicle, the row of its deeds from the new stage on
(`Execution.exists_chronicle`). Each deed is told by one event, at the instant at which it is done,
and no other event tells of one (`Chronicle.told`). -/

namespace SpriteStage

/-! ## What actions do to cells -/

namespace Action

/-- Whether an action writes a cell. -/
def writes : Action → Cell → Bool
  | .speak _ _ _, .speech => true
  | .glide _ _ _, .glide | .glideBy _ _ _, .glide | .glideRandom _, .glide => true
  | .pointTowardsPointer, .glide => true
  | _, _ => false

/-- The cell that an action fills for a limited time, and for how long. -/
def fills? : Action → Option (Cell × Nat)
  | .glide _ _ durationMs | .glideBy _ _ durationMs | .glideRandom durationMs =>
    some (.glide, durationMs)
  | .speak _ _ (some timeoutMs) => some (.speech, timeoutMs)
  | _ => none

/-- What is filled for a time is written. -/
theorem writes_of_fills? {action : Action} {cell : Cell} {ms : Nat}
    (h : action.fills? = some (cell, ms)) : action.writes cell = true := by
  cases action with
  | speak message bubble timeoutMs =>
      cases timeoutMs with
      | none => cases h
      | some _ =>
          cases h
          rfl
  | glide _ _ _ | glideBy _ _ _ | glideRandom _ =>
      cases h
      rfl
  | _ => cases h

/-- The event that tells of an action, performed as a step of a run or outside any run. -/
def event (action : Action) : Option (RunId × Nat) → StageEvent
  | none => .actionApplied action.name
  | some (run, index) => .stepApplied run index action.name

end Action

namespace Sprite

/-- The two sprites have the same cell, with the same version. -/
def AgreeOn (a b : Sprite) : Cell → Prop
  | .speech => b.speech = a.speech
  | .glide => b.glide = a.glide

variable {a b c : Sprite} {cell : Cell}

theorem AgreeOn.refl (a : Sprite) (cell : Cell) : a.AgreeOn a cell := by cases cell <;> rfl

theorem AgreeOn.trans (h : a.AgreeOn b cell) (h' : b.AgreeOn c cell) : a.AgreeOn c cell := by
  cases cell with
  | speech => exact Eq.trans h' h
  | glide => exact Eq.trans h' h

theorem AgreeOn.version_eq (h : a.AgreeOn b cell) : b.version cell = a.version cell := by
  cases cell with
  | speech => exact congrArg Versioned.version h
  | glide => exact congrArg Versioned.version h

/-- Emptying one cell leaves the other alone. -/
theorem agreeOn_clear (s : Sprite) {cleared : Cell} (hne : cell ≠ cleared) :
    s.AgreeOn (s.clear cleared) cell := by
  cases cell <;> cases cleared <;> first | rfl | exact absurd rfl hne

theorem version_lt_clear (s : Sprite) (cell : Cell) :
    s.version cell < (s.clear cell).version cell := by
  cases cell <;> exact Nat.lt_succ_self _

theorem version_lt_reset (s : Sprite) (cell : Cell) : s.version cell < s.reset.version cell := by
  cases cell <;> exact Nat.lt_succ_self _

end Sprite

section Action

variable (action : Action) (around : Surroundings) (extent : Float) (g : Generator) (s : Sprite)

/-- An action asks for the clearing of the cell that it fills, as it has just written it. -/
theorem Action.clear_eq : (action.perform around extent g s).clear
    = action.fills?.map fun (cell, ms) =>
        ⟨cell, ms, (action.perform around extent g s).sprite.version cell⟩ := by
  cases action with
  | speak message bubble timeoutMs => cases timeoutMs <;> rfl
  | _ => rfl

theorem Action.agreeOn_perform {cell : Cell} (h : action.writes cell = false) :
    s.AgreeOn (action.perform around extent g s).sprite cell := by
  cases action <;> cases cell <;> first | rfl | cases h

theorem Action.version_lt_perform {cell : Cell} (h : action.writes cell = true) :
    s.version cell < (action.perform around extent g s).sprite.version cell := by
  cases action <;> cases cell <;> first | exact Nat.lt_succ_self _ | cases h

end Action

/-! ## Deeds -/

/-- What touches the sprite or the clearings in the agenda. -/
inductive Deed where
  /-- An action is performed, as a step of a run or outside any run. -/
  | act (action : Action) (place : Option (RunId × Nat))
  /-- An undo puts something back. -/
  | undo
  | reset
  /-- A clearing fires. -/
  | clear (entry : Appointment)

/-- Whether an event tells of a deed. -/
def StageEvent.isOfDeed : StageEvent → Bool
  | .stepApplied _ _ _ | .actionApplied _ | .undone _ | .reset | .cleared _
  | .staleTimerDropped _ => true
  | _ => false

/-- A deed with the stages around it and the event that tells of it. -/
structure Happening where
  deed : Deed
  before : Stage
  after : Stage
  event : StageEvent

namespace Happening

/-- The event of a deed with its instant. -/
def told (h : Happening) : TimedEvent := ⟨h.after.now, h.event⟩

/-- Whether a deed writes a cell. A clearing that is dropped writes nothing. -/
def Writes (h : Happening) (cell : Cell) : Prop :=
  match h.deed with
  | .act action _ => action.writes cell = true
  | .undo => cell = .speech
  | .reset => True
  | .clear _ => h.event = .cleared cell

/-- The deed was done, after some events that tell of none. -/
inductive Done : Happening → List StageEvent → Prop
  | act (s : Stage) (action : Action) (place : Option (RunId × Nat)) :
      Done ⟨.act action place, s, s.perform action, action.event place⟩ []
  | undo {s : Stage} {newest : Memory} {rest : List Memory}
      (hmemories : s.history.memories = newest :: rest) :
      Done ⟨.undo, s, s.undo.1, .undone rest.length⟩ s.beforeUndo.2
  | reset (s : Stage) : Done ⟨.reset, s, s.reset.1, .reset⟩ s.cancelRuns.2
  | clear {s : Stage} {entry : Appointment} {rest : List Appointment} {cell : Cell} {version : Nat}
      {event : StageEvent} (hentries : s.agenda.entries = entry :: rest)
      (htimer : entry.timer = .clear cell version)
      (hevent : ((s.arrive entry rest).fireClear cell version).2 = [event]) :
      Done ⟨.clear entry, s, ((s.arrive entry rest).fireClear cell version).1, event⟩ []

end Happening

/-- Nothing happens to the sprite and the clearings: the agenda stays in order with nothing overdue,
    and no event tells of a deed. -/
structure Stage.Unseen (s : Stage) (events : List StageEvent) (s' : Stage) : Prop where
  cells : SameCells s s'
  config_eq : s'.config = s.config
  nextSeq_le : s.agenda.nextSeq ≤ s'.agenda.nextSeq
  timely : Timely s → Timely s'
  quiet : ∀ event ∈ events, event.isOfDeed = false

/-- A row of deeds, with the events. -/
inductive Stage.Deeds : Stage → List TimedEvent → List Happening → Stage → Prop
  | nil (s : Stage) : Deeds s [] [] s
  | unseen {s mid s' : Stage} {events : List StageEvent} {log : List TimedEvent}
      {row : List Happening} (still : s.Unseen events mid) (deeds : Deeds mid log row s') :
      Deeds s (mid.stamp events ++ log) row s'
  | seen {h : Happening} {s' : Stage} {events : List StageEvent} {log : List TimedEvent}
      {row : List Happening} (done : h.Done events) (deeds : Deeds h.after log row s') :
      Deeds h.before (h.after.stamp (events ++ [h.event]) ++ log) (h :: row) s'

/-- All deeds of an execution, from the new stage on. -/
def Chronicle (config : StageConfig) (s : Stage) (log : List TimedEvent) (row : List Happening) :
    Prop :=
  ∃ start : Stage, start.IsNew config ∧ start.Deeds log row s

/-! ## What a deed does -/

namespace Stage

@[simp] theorem perform_sprite (s : Stage) (action : Action) :
    (s.perform action).sprite = (s.performed action).sprite := by
  rw [perform_eq, scheduleClear_sprite]

/-- An undo that puts something back writes the bubble. -/
theorem undo_sprite {s : Stage} {newest : Memory} {rest : List Memory}
    (hmemories : s.history.memories = newest :: rest) :
    s.undo.1.sprite = newest.restore s.sprite := by
  rcases s.undo_cases with ⟨hnone, -⟩ | ⟨_, _, hmemories', heq⟩
  · rw [hnone] at hmemories
    cases hmemories
  · obtain ⟨rfl, -⟩ := List.cons.inj (hmemories'.symm.trans hmemories)
    rw [heq]

/-- An undo cancels nothing but steps. -/
theorem undo_agenda (s : Stage) :
    s.undo.1.agenda = s.agenda.cancel Timer.isStep ∨ s.undo.1.agenda = s.agenda := by
  rcases s.undo_cases with ⟨-, heq⟩ | ⟨newest, rest, -, heq⟩
  · exact Or.inr (by rw [heq])
  · rw [heq]
    unfold beforeUndo
    split
    · exact Or.inl rfl
    · exact Or.inr rfl

/-- The clearing of a cell empties it and says so, or it does nothing and is dropped. -/
theorem fireClear_event {s : Stage} {cell : Cell} {version : Nat} {event : StageEvent}
    (hevent : (s.fireClear cell version).2 = [event]) :
    (event = .cleared cell ∧
      (s.fireClear cell version).1 = { s with sprite := s.sprite.clear cell } ∧
      (version = s.sprite.version cell ∨ s.config.stalePolicy = .fire)) ∨
    (event = .staleTimerDropped (Timer.clear cell version).label ∧
      (s.fireClear cell version).1 = s ∧ version ≠ s.sprite.version cell ∧
      s.config.stalePolicy = .drop) := by
  unfold fireClear at hevent ⊢
  split at hevent
  · rename_i hcurrent
    rw [if_pos hcurrent]
    exact Or.inl ⟨(List.cons.inj hevent).1.symm, rfl, hcurrent⟩
  · rename_i hstale
    rw [if_neg hstale]
    obtain ⟨hversion, hpolicy⟩ := not_or.1 hstale
    refine Or.inr ⟨(List.cons.inj hevent).1.symm, rfl, hversion, ?_⟩
    cases hdrop : s.config.stalePolicy with
    | drop => rfl
    | fire => exact absurd hdrop hpolicy

end Stage

namespace Happening.Done

variable {h : Happening} {events : List StageEvent}

/-- The event of a deed tells of it. -/
theorem isOfDeed (hd : h.Done events) : h.event.isOfDeed = true := by
  cases hd with
  | act s action place => cases place <;> rfl
  | undo _ | reset _ => rfl
  | clear _ _ hevent => rcases Stage.fireClear_event hevent with ⟨rfl, -⟩ | ⟨rfl, -⟩ <;> rfl

/-- Before the event of a deed nothing is told but that runs are cancelled. -/
theorem quiet (hd : h.Done events) : ∀ event ∈ events, event.isOfDeed = false := by
  intro event hevent
  cases hd with
  | act _ _ _ => cases hevent
  | clear _ _ _ => cases hevent
  | undo _ =>
      obtain ⟨run, atStep, rfl⟩ := Stage.beforeUndo_answer _ event hevent
      rfl
  | reset s =>
      obtain ⟨run, atStep, rfl⟩ := s.cancelRuns_answer event hevent
      rfl

/-- Every deed is a move, or part of one that leaves the settings and the order alone. -/
theorem config_eq (hd : h.Done events) : h.after.config = h.before.config := by
  cases hd with
  | act s action place => exact s.perform_config action
  | @undo s _ _ _ => exact (Stage.Moves.undo s).config_eq
  | reset _ => rfl
  | clear _ _ hevent =>
      rcases Stage.fireClear_event hevent with ⟨-, heq, -⟩ | ⟨-, heq, -⟩ <;> rw [heq] <;> rfl

theorem timely (hd : h.Done events) (ht : Timely h.before) : Timely h.after := by
  cases hd with
  | act s action place => exact ht.perform action
  | undo _ => exact ht.undo
  | reset _ => exact ht.reset
  | clear hentries _ hevent =>
      have harrived := ht.arrive hentries
      rcases Stage.fireClear_event hevent with ⟨-, heq, -⟩ | ⟨-, heq, -⟩
      · rw [heq]
        exact harrived.of_eq rfl rfl
      · rw [heq]
        exact harrived

theorem nextSeq_le (hd : h.Done events) : h.before.agenda.nextSeq ≤ h.after.agenda.nextSeq := by
  cases hd with
  | act s action place =>
      rcases s.perform_agenda action with hagenda | ⟨ms, cell, version, hagenda⟩
      · exact Nat.le_of_eq (by rw [hagenda])
      · rw [hagenda]
        exact Nat.le_succ _
  | @undo s _ _ _ =>
      rcases s.undo_agenda with hagenda | hagenda <;>
        exact Nat.le_of_eq (congrArg Agenda.nextSeq hagenda).symm
  | reset s =>
      rcases s.reset_agenda with hagenda | hagenda <;>
        exact Nat.le_of_eq (congrArg Agenda.nextSeq hagenda).symm
  | clear _ _ hevent =>
      rcases Stage.fireClear_event hevent with ⟨-, heq, -⟩ | ⟨-, heq, -⟩ <;>
        exact Nat.le_of_eq (by rw [heq]; rfl)

/-- A deed that does not write a cell leaves it alone. -/
theorem agreeOn (hd : h.Done events) {cell : Cell} (hwrites : ¬ h.Writes cell) :
    h.before.sprite.AgreeOn h.after.sprite cell := by
  cases hd with
  | act s action place =>
      rw [Stage.perform_sprite]
      exact action.agreeOn_perform _ _ _ _ (by simpa [Writes] using hwrites)
  | undo hmemories =>
      rw [Stage.undo_sprite hmemories]
      cases cell with
      | speech => exact absurd rfl hwrites
      | glide => rfl
  | reset _ => exact absurd trivial hwrites
  | clear _ _ hevent =>
      rcases Stage.fireClear_event hevent with ⟨rfl, heq, -⟩ | ⟨-, heq, -⟩
      · rw [heq]
        exact Sprite.agreeOn_clear _ fun hsame => hwrites (by rw [hsame]; rfl)
      · rw [heq]
        exact .refl _ _

/-- A deed that writes a cell raises its version. -/
theorem version_lt (hd : h.Done events) {cell : Cell} (hwrites : h.Writes cell) :
    h.before.sprite.version cell < h.after.sprite.version cell := by
  cases hd with
  | act s action place =>
      rw [Stage.perform_sprite]
      exact action.version_lt_perform _ _ _ _ hwrites
  | undo hmemories =>
      rw [Stage.undo_sprite hmemories]
      obtain rfl : cell = .speech := hwrites
      exact Nat.lt_succ_self _
  | reset s => exact s.sprite.version_lt_reset cell
  | clear _ _ hevent =>
      rcases Stage.fireClear_event hevent with ⟨rfl, heq, -⟩ | ⟨rfl, -⟩
      · obtain rfl := StageEvent.cleared.inj hwrites
        rw [heq]
        exact Sprite.version_lt_clear _ _
      · cases hwrites

end Happening.Done

/-! ## Rows of deeds -/

namespace Stage

theorem Unseen.stamp_filter {s s' : Stage} {events : List StageEvent} (h : s.Unseen events s') :
    (s'.stamp events).filter (·.event.isOfDeed) = [] := by
  refine List.filter_eq_nil_iff.2 fun e he => ?_
  obtain ⟨event, hevent, rfl⟩ := mem_stamp.1 he
  simp [h.quiet event hevent]

namespace Deeds

variable {s mid s' : Stage} {log later : List TimedEvent} {row rest : List Happening}

theorem of_unseen {events : List StageEvent} (h : s.Unseen events s') :
    s.Deeds (s'.stamp events) [] s' := by
  have hdeeds := Deeds.unseen h (.nil s')
  rwa [List.append_nil] at hdeeds

theorem of_done {h : Happening} {events : List StageEvent} (hd : h.Done events) :
    h.before.Deeds (h.after.stamp (events ++ [h.event])) [h] h.after := by
  have hdeeds := Deeds.seen hd (.nil h.after)
  rwa [List.append_nil] at hdeeds

theorem append (h : s.Deeds log row mid) (h' : mid.Deeds later rest s') :
    s.Deeds (log ++ later) (row ++ rest) s' := by
  induction h with
  | nil => exact h'
  | unseen still _ ih =>
      rw [List.append_assoc]
      exact .unseen still (ih h')
  | seen done _ ih =>
      rw [List.append_assoc]
      exact .seen done (ih h')

theorem told (h : s.Deeds log row s') :
    log.filter (·.event.isOfDeed) = row.map Happening.told := by
  induction h with
  | nil => rfl
  | unseen still _ ih => rw [List.filter_append, still.stamp_filter, ih, List.nil_append]
  | @seen h _ events _ _ done _ ih =>
      have hquiet : (h.after.stamp events).filter (·.event.isOfDeed) = [] := by
        refine List.filter_eq_nil_iff.2 fun e he => ?_
        obtain ⟨event, hevent, rfl⟩ := mem_stamp.1 he
        simp [done.quiet event hevent]
      have hone : (h.after.stamp [h.event]).filter (·.event.isOfDeed) = [h.told] := by
        simp [stamp, Happening.told, done.isOfDeed]
      rw [List.filter_append, stamp_append, List.filter_append, hquiet, hone, ih]
      rfl

/-- What is kept where nothing is seen and by every deed is kept by a row that goes on. -/
theorem induction_append {P : Stage → List Happening → Prop}
    (unseen : ∀ {x x' row events}, P x row → Timely x → x.Unseen events x' → P x' row)
    (seen : ∀ {h row events}, P h.before row → Timely h.before → h.Done events →
      P h.after (row ++ [h]))
    (h : s.Deeds log row s') (ht : Timely s) {past : List Happening} (hs : P s past) :
    P s' (past ++ row) := by
  induction h generalizing past with
  | nil => rwa [List.append_nil]
  | unseen still _ ih => exact ih (still.timely ht) (unseen hs ht still)
  | seen done _ ih =>
      rw [List.append_cons]
      exact ih (done.timely ht) (seen hs ht done)

/-- What is kept where nothing is seen and by every deed holds at the end of a row. -/
theorem induction {P : Stage → List Happening → Prop} (nil : P s [])
    (unseen : ∀ {x x' row events}, P x row → Timely x → x.Unseen events x' → P x' row)
    (seen : ∀ {h row events}, P h.before row → Timely h.before → h.Done events →
      P h.after (row ++ [h]))
    (h : s.Deeds log row s') (ht : Timely s) : P s' row :=
  h.induction_append (P := P) unseen seen ht nil

theorem config_eq (h : s.Deeds log row s') : s'.config = s.config := by
  induction h with
  | nil => rfl
  | unseen still _ ih => exact ih.trans still.config_eq
  | seen done _ ih => exact ih.trans done.config_eq

theorem timely (h : s.Deeds log row s') (ht : Timely s) : Timely s' := by
  induction h with
  | nil => exact ht
  | unseen still _ ih => exact ih (still.timely ht)
  | seen done _ ih => exact ih (done.timely ht)

/-- A row parts at each of its deeds. -/
theorem split {earlier later : List Happening} {h : Happening}
    (hdeeds : s.Deeds log (earlier ++ h :: later) s') :
    ∃ before events after, s.Deeds before earlier h.before ∧ h.Done events ∧
      h.after.Deeds after later s' := by
  generalize hrow : earlier ++ h :: later = row at hdeeds
  induction hdeeds generalizing earlier with
  | nil => simp at hrow
  | unseen still _ ih =>
      obtain ⟨before, events, after, hbefore, hdone, hafter⟩ := ih hrow
      exact ⟨_, events, after, .unseen still hbefore, hdone, hafter⟩
  | seen done deeds ih =>
      cases earlier with
      | nil =>
          obtain ⟨rfl, rfl⟩ := List.cons.inj hrow
          exact ⟨[], _, _, .nil _, done, deeds⟩
      | cons first earlier =>
          obtain ⟨rfl, hrest⟩ := List.cons.inj hrow
          obtain ⟨before, events, after, hbefore, hdone, hafter⟩ := ih hrest
          exact ⟨_, events, after, .seen done hbefore, hdone, hafter⟩

/-- The event of each deed of a row is among the events. -/
theorem told_mem (hdeeds : s.Deeds log row s') {h : Happening} (hmem : h ∈ row) : h.told ∈ log := by
  have htold : h.told ∈ log.filter (·.event.isOfDeed) := by
    rw [hdeeds.told]
    exact List.mem_map_of_mem hmem
  exact (List.mem_filter.1 htold).1

theorem exists_done (hdeeds : s.Deeds log row s') {h : Happening} (hmem : h ∈ row) :
    ∃ events, h.Done events := by
  obtain ⟨earlier, later, rfl⟩ := List.append_of_mem hmem
  obtain ⟨-, events, -, -, hdone, -⟩ := hdeeds.split
  exact ⟨events, hdone⟩

end Deeds

/-! ## Every move is a row of deeds -/

namespace Unseen

variable {s s' : Stage} {events : List StageEvent}

theorem of_eq (hsprite : s'.sprite = s.sprite) (hagenda : s'.agenda = s.agenda)
    (hconfig : s'.config = s.config) (hnow : s'.now = s.now)
    (hquiet : ∀ event ∈ events, event.isOfDeed = false) : s.Unseen events s' where
  cells := .of_eq hsprite hagenda
  config_eq := hconfig
  nextSeq_le := Nat.le_of_eq (by rw [hagenda])
  timely h := h.of_eq hagenda hnow
  quiet := hquiet

theorem of_schedule {ms : Nat} {timer : Timer} (htimer : timer.isClear = false)
    (hsprite : s'.sprite = s.sprite)
    (hagenda : s'.agenda = s.agenda.schedule (after s.now ms) timer)
    (hconfig : s'.config = s.config) (hnow : s'.now = s.now)
    (hquiet : ∀ event ∈ events, event.isOfDeed = false) : s.Unseen events s' where
  cells := .of_schedule htimer hsprite hagenda
  config_eq := hconfig
  nextSeq_le := by rw [hagenda]; exact Nat.le_succ _
  timely h := h.of_schedule hagenda hnow
  quiet := hquiet

theorem of_arrive {entry : Appointment} {rest : List Appointment}
    (hentries : s.agenda.entries = entry :: rest) (htimer : entry.timer.isClear = false) :
    s.Unseen [] (s.arrive entry rest) where
  cells := .of_arrive hentries htimer
  config_eq := rfl
  nextSeq_le := Nat.le_refl _
  timely h := h.arrive hentries
  quiet := nofun

end Unseen

section Moves

variable {s s' : Stage}

/-- Where nothing happens to the settings, the sprite, the agenda and the clock no deed is done. -/
theorem Deeds.of_eq {events : List StageEvent} (hsprite : s'.sprite = s.sprite)
    (hagenda : s'.agenda = s.agenda) (hconfig : s'.config = s.config) (hnow : s'.now = s.now)
    (hquiet : ∀ event ∈ events, event.isOfDeed = false) :
    ∃ row, s.Deeds (s'.stamp events) row s' :=
  ⟨[], .of_unseen (.of_eq hsprite hagenda hconfig hnow hquiet)⟩

theorem deeds_perform (s : Stage) (action : Action) (place : Option (RunId × Nat)) :
    s.Deeds ((s.perform action).stamp [action.event place])
      [⟨.act action place, s, s.perform action, action.event place⟩] (s.perform action) :=
  .of_done (.act s action place)

/-- A step of a run is the deed of its action, if it is made. -/
theorem deeds_runStep (s : Stage) (run : RunId) (index : Nat) :
    ∃ row, s.Deeds ((s.runStep run index).1.stamp (s.runStep run index).2) row
      (s.runStep run index).1 := by
  rcases s.runStep_cases run index with ⟨heq, -⟩ | ⟨r, hi, -, ⟨-, heq⟩ | ⟨-, heq⟩⟩
  · rw [heq]
    exact ⟨[], .nil s⟩
  · rw [heq]
    have hact := s.deeds_perform r.actions[index] (some (run, index))
    refine ⟨_, hact.append (@Deeds.of_unseen _ _ [] ?_)⟩
    exact .of_schedule rfl rfl rfl rfl rfl nofun
  · rw [heq]
    have hact := s.deeds_perform r.actions[index] (some (run, index))
    refine ⟨_, hact.append (@Deeds.of_unseen _ _ [.runFinished run] ?_)⟩
    exact .of_eq rfl rfl rfl rfl (by simp [StageEvent.isOfDeed])

theorem deeds_firstSteps (s : Stage) (ids : List RunId) :
    ∃ row, s.Deeds (s.stamp (s.firstSteps ids).2) row (s.firstSteps ids).1 := by
  induction ids generalizing s with
  | nil => exact ⟨[], .nil s⟩
  | cons run rest ih =>
      obtain ⟨row, hfirst⟩ := s.deeds_runStep run 0
      obtain ⟨later, hrest⟩ := ih (s.runStep run 0).1
      have hnow : (s.runStep run 0).1.now = s.now := s.runStep_now run 0
      rw [stamp_congr hnow] at hfirst hrest
      rw [firstSteps_cons, stamp_append]
      exact ⟨row ++ later, hfirst.append hrest⟩

theorem deeds_dispatch (s : Stage) (origin : RunOrigin) :
    ∃ row, s.Deeds (s.stamp (s.dispatch origin).2) row (s.dispatch origin).1 := by
  cases hplan : s.program.plan origin s.isPlaying with
  | ignore reason =>
      rw [dispatch_of_ignore hplan]
      exact Deeds.of_eq rfl rfl rfl rfl (by simp [StageEvent.isOfDeed])
  | start runs =>
      rw [dispatch_of_start hplan]
      have hall := s.startAll_eq origin runs
      have hstarted : s.Unseen (.historyPushed (s.history.push (.capture s.sprite)).depth
          :: (s.startAll origin runs).2.2) (s.startAll origin runs).1 := by
        refine .of_eq ?_ ?_ ?_ ?_ ?_
        iterate 4 rw [hall]
        intro event hevent
        rcases List.mem_cons.1 hevent with rfl | hevent
        · rfl
        · have hstarts := startRuns_startsRun _ origin runs event hevent
          cases event <;> first | rfl | cases hstarts
      obtain ⟨row, hsteps⟩ :=
        (s.startAll origin runs).1.deeds_firstSteps (s.startAll origin runs).2.1
      have hdeeds := (Deeds.of_unseen hstarted).append hsteps
      rw [← stamp_append, stamp_congr (by rw [hall])] at hdeeds
      exact ⟨_, hdeeds⟩

theorem deeds_undo (s : Stage) : ∃ row, s.Deeds (s.undo.1.stamp s.undo.2) row s.undo.1 := by
  rcases s.undo_cases with ⟨-, heq⟩ | ⟨newest, rest, hmemories, heq⟩
  · rw [heq]
    exact ⟨[], .nil s⟩
  · have hevents : s.undo.2 = s.beforeUndo.2 ++ [.undone rest.length] := by rw [heq]
    rw [hevents]
    exact ⟨_, .of_done (.undo hmemories)⟩

theorem deeds_fire {entry : Appointment} {rest : List Appointment}
    (hentries : s.agenda.entries = entry :: rest) :
    ∃ row, s.Deeds
      (((s.arrive entry rest).fire entry.timer).1.stamp ((s.arrive entry rest).fire entry.timer).2)
      row ((s.arrive entry rest).fire entry.timer).1 := by
  cases htimer : entry.timer with
  | step run index =>
      have harrive := Deeds.of_unseen (Unseen.of_arrive hentries (by rw [htimer]; rfl))
      obtain ⟨row, hstep⟩ := (s.arrive entry rest).deeds_runStep run index
      exact ⟨_, harrive.append hstep⟩
  | clear cell version =>
      have hevent : ∃ event, ((s.arrive entry rest).fireClear cell version).2 = [event] := by
        rcases (s.arrive entry rest).fireClear_cases cell version with heq | heq <;>
          exact ⟨_, by rw [heq]⟩
      obtain ⟨event, hevent⟩ := hevent
      rw [fire, hevent]
      exact ⟨_, .of_done (.clear hentries htimer hevent)⟩
  | demoTick session =>
      have harrive := Deeds.of_unseen (Unseen.of_arrive hentries (by rw [htimer]; rfl))
      rcases (s.arrive entry rest).fireDemoTick_cases session with ⟨-, heq⟩ | ⟨-, -, heq⟩
      · rw [fire, heq]
        exact ⟨_, harrive⟩
      · rw [fire, heq]
        refine ⟨_, harrive.append (.of_unseen ?_)⟩
        exact .of_schedule rfl rfl rfl rfl rfl (by simp [StageEvent.isOfDeed])

theorem Moves.deeds {events : List StageEvent} {started : List Announcement}
    (m : Moves s events started s') : ∃ row, s.Deeds (s'.stamp events) row s' := by
  cases m with
  | click origin =>
      rw [stamp_congr (s.dispatch_now origin)]
      exact s.deeds_dispatch origin
  | once action => exact ⟨_, s.deeds_perform action none⟩
  | undo => exact s.deeds_undo
  | reset => exact ⟨_, .of_done (.reset s)⟩
  | fire hentries => exact deeds_fire hentries
  | closeDemo =>
      refine ⟨[], .of_unseen ⟨?_, rfl, ?_, fun h => h.closeDemo, by simp [StageEvent.isOfDeed]⟩⟩
      · rcases s.closeDemo_agenda with hagenda | hagenda
        · exact .of_cancel Timer.isDemoTick_of_isClear rfl hagenda
        · exact .of_eq rfl hagenda
      · rcases s.closeDemo_agenda with hagenda | hagenda <;>
          exact Nat.le_of_eq (congrArg Agenda.nextSeq hagenda).symm
  | startDemo _ _ =>
      refine ⟨[], .of_unseen (.of_schedule rfl rfl rfl rfl rfl ?_)⟩
      simp [StageEvent.isOfDeed]
  | wait hnone hlast =>
      exact ⟨[], .of_unseen
        ⟨.of_eq rfl rfl, rfl, Nat.le_refl _, fun h => h.waitUntil hnone hlast, nofun⟩⟩
  | nothing | replace _ | point _ | calibrate _ | resize _ | openDemo =>
      exact Deeds.of_eq rfl rfl rfl rfl (by simp [StageEvent.isOfDeed])

theorem Path.deeds {log : List TimedEvent} {started : List Announcement}
    (h : Path s log started s') : ∃ row, s.Deeds log row s' := by
  induction h with
  | nil s => exact ⟨[], .nil s⟩
  | cons move _ ih =>
      obtain ⟨first, hfirst⟩ := move.deeds
      obtain ⟨row, hrest⟩ := ih
      exact ⟨first ++ row, hfirst.append hrest⟩

/-- Every operation is a row of deeds. -/
theorem deeds_of_operateTimed? {operation : Operation}
    {answer : Except StageError (List TimedEvent)}
    (h : s.operateTimed? operation = some (s', answer)) :
    ∃ row, s.Deeds (eventsOf answer) row s' :=
  (path_of_operateTimed? h).deeds

end Moves

end Stage

/-! ## Chronicles -/

/-- Every execution has a chronicle. -/
theorem Execution.exists_chronicle {config : StageConfig} {s : Stage} {log : List TimedEvent}
    {plans : List Announcement} (h : Execution config s log plans) :
    ∃ row, Chronicle config s log row := by
  induction h with
  | @new s hnew => exact ⟨[], s, hnew, .nil s⟩
  | operate _ hop ih =>
      obtain ⟨row, start, hnew, hdeeds⟩ := ih
      obtain ⟨later, hlater⟩ := Stage.deeds_of_operateTimed? hop
      exact ⟨row ++ later, start, hnew, hdeeds.append hlater⟩

namespace Chronicle

variable {config : StageConfig} {s : Stage} {log : List TimedEvent} {row : List Happening}

theorem timely (h : Chronicle config s log row) : Timely s := by
  obtain ⟨start, hnew, hdeeds⟩ := h
  exact hdeeds.timely hnew.timely

/-- Each deed is told by its event, and no other event tells of one. -/
theorem told (h : Chronicle config s log row) :
    log.filter (·.event.isOfDeed) = row.map Happening.told := by
  obtain ⟨start, -, hdeeds⟩ := h
  exact hdeeds.told

/-- The deeds up to one of them are a chronicle of the stage before it. -/
theorem split {earlier later : List Happening} {h : Happening}
    (hc : Chronicle config s log (earlier ++ h :: later)) :
    ∃ before events after, Chronicle config h.before before earlier ∧ h.Done events ∧
      h.after.Deeds after later s := by
  obtain ⟨start, hnew, hdeeds⟩ := hc
  obtain ⟨before, events, after, hbefore, hdone, hafter⟩ := hdeeds.split
  exact ⟨before, events, after, ⟨start, hnew, hbefore⟩, hdone, hafter⟩

/-- The settings never change. -/
theorem config_eq (h : Chronicle config s log row) : s.config = config := by
  obtain ⟨start, hnew, hdeeds⟩ := h
  obtain ⟨-, program, generator, -, rfl⟩ := hnew
  exact hdeeds.config_eq

end Chronicle

end SpriteStage

import SpriteStage.Proofs.Chronicle
import SpriteStage.Proofs.Undoing
set_option autoImplicit false

/-! # The history beside an unbounded stack

`Stage.unbounded` is a stack of memories that forgets nothing: an operation that starts runs puts
the sprite on it as it was before, an undo that is not ignored takes the top off, and a reset
empties it. It goes by the answers of the operations alone. The history is the top part of this
stack (`Stage.isPrefix_unbounded`), for what falls out of it is at the other end; so an undo that
finds something in the history finds the top of the stack. -/

namespace SpriteStage

/-- Whether an answer says that a run was started. What is refused starts none. -/
def startsRuns : Except StageError (List StageEvent) → Bool
  | .ok events => events.any (·.startsRun)
  | .error _ => false

theorem startsRuns_eq_any (answer : Except StageError (List StageEvent)) :
    startsRuns answer = (Stage.eventsOf answer).any (·.startsRun) := by
  cases answer <;> rfl

namespace Stage

/-! ## The unbounded stack -/

/-- What is on the unbounded stack after an operation with these events, the newest first. An undo
    without events was ignored. -/
def stackAfter (s : Stage) (stack : List Memory) (operation : Operation)
    (events : List StageEvent) : List Memory :=
  match operation with
  | .input .undo => if events.isEmpty then stack else stack.tail
  | .input .reset => []
  | _ => if events.any (·.startsRun) then .capture s.sprite :: stack else stack

/-- What is on the unbounded stack after a row of operations. What is refused changes nothing. -/
def unbounded (s : Stage) (stack : List Memory) : List Operation → List Memory
  | [] => stack
  | operation :: rest =>
    match s.operate? operation with
    | none => stack
    | some (mid, .error _) => mid.unbounded stack rest
    | some (mid, .ok events) => mid.unbounded (s.stackAfter stack operation events) rest

section Other

variable {operation : Operation} (s : Stage)

/-- Other operations than undo and reset put something on the stack, or leave it alone. -/
theorem stackAfter_of_ne (hundo : operation ≠ .input .undo) (hreset : operation ≠ .input .reset)
    (stack : List Memory) (events : List StageEvent) :
    s.stackAfter stack operation events
      = if events.any (·.startsRun) then .capture s.sprite :: stack else stack := by
  cases operation with
  | input input =>
      cases input with
      | undo => exact absurd rfl hundo
      | reset => exact absurd rfl hreset
      | _ => rfl
  | _ => rfl

theorem remember_of_ne (hundo : operation ≠ .input .undo) (hreset : operation ≠ .input .reset)
    {α : Type} (present : α) (past : List α) :
    s.remember present past operation
      = if (s.announced operation).isEmpty then past
        else (present :: past).take (max s.config.historyDepth 1) := by
  cases operation with
  | input input =>
      cases input with
      | undo => exact absurd rfl hundo
      | reset => exact absurd rfl hreset
      | _ => rfl
  | _ => rfl

end Other

end Stage

/-! ## What the answers say -/

/-- The runs that an operation starts are those that it announces. -/
theorem Reachable.starts_eq {s s' : Stage} {operation : Operation}
    {answer : Except StageError (List TimedEvent)} (h : Reachable s)
    (hop : s.operateTimed? operation = some (s', answer)) :
    (Stage.eventsOf answer).filter (·.event.startsRun)
      = (s.announced operation).map Announcement.startEvent := by
  obtain ⟨config, log, plans, hexecution⟩ := h.execution
  have hbefore := hexecution.told.started
  have hafter := (hexecution.operate hop).told.started
  rw [List.filter_append, hbefore, List.map_append] at hafter
  exact List.append_cancel_left hafter

theorem Reachable.startsRuns_eq {s s' : Stage} {operation : Operation}
    {answer : Except StageError (List StageEvent)} (h : Reachable s)
    (hop : s.operate? operation = some (s', answer)) :
    startsRuns answer = !(s.announced operation).isEmpty := by
  obtain ⟨timed, htimed, rfl⟩ := Stage.exists_operateTimed? hop
  have hstarts := congrArg List.isEmpty (h.starts_eq htimed)
  rw [List.isEmpty_map] at hstarts
  rw [startsRuns_eq_any, Stage.eventsOf_map, ← hstarts, Bool.eq_iff_iff]
  simp

namespace Stage

/-- An undo is ignored if the history is empty, and then it changes nothing. -/
theorem undo_of_empty {s : Stage} (hempty : s.history.memories = []) : s.undo = (s, []) := by
  rcases s.undo_cases with ⟨-, heq⟩ | ⟨newest, rest, hmemories, -⟩
  · exact heq
  · rw [hempty] at hmemories
    cases hmemories

theorem undo_events {s : Stage} (hsome : s.history.memories ≠ []) :
    s.undo.2 = s.beforeUndo.2 ++ [.undone s.undo.1.history.depth] := by
  rcases s.undo_cases with ⟨hempty, -⟩ | ⟨newest, rest, -, heq⟩
  · exact absurd hempty hsome
  · rw [heq]
    rfl

/-! ## The history is the top part -/

/-- The history stays the top part of the stack. -/
theorem isPrefix_stackAfter {s s' : Stage} {operation : Operation} {events : List StageEvent}
    {stack : List Memory} (h : Reachable s)
    (hop : s.operate? operation = some (s', .ok events))
    (htop : s.history.memories <+: stack) :
    s'.history.memories <+: s.stackAfter stack operation events := by
  have hhistory := congrArg UndoHistory.memories (operate?_history hop h.remembered.maxDepth)
  rw [hhistory]
  by_cases hundo : operation = .input .undo
  · subst hundo
    cases hop
    cases hmemories : s.history.memories with
    | nil => exact List.nil_prefix
    | cons newest rest =>
        have hevents : s.undo.2.isEmpty = false := by
          rw [undo_events (by rw [hmemories]; exact List.cons_ne_nil _ _)]
          simp
        -- the top of the stack is the newest memory
        obtain ⟨deeper, rfl⟩ := htop
        simp only [stackAfter, hevents, hmemories, remember]
        exact List.prefix_append rest deeper
  · by_cases hreset : operation = .input .reset
    · subst hreset
      exact List.nil_prefix
    · have hstarts : events.any (·.startsRun) = !(s.announced operation).isEmpty :=
        h.startsRuns_eq hop
      rw [remember_of_ne s hundo hreset, stackAfter_of_ne s hundo hreset, hstarts]
      cases (s.announced operation).isEmpty with
      | true => exact htop
      | false =>
          refine (List.take_prefix _ _).trans ?_
          exact (List.prefix_cons_inj _).2 htop

/-- After a row of operations the history is the top part of the unbounded stack. -/
theorem isPrefix_unbounded {s s' : Stage} {ops : List Operation} {records : List Record}
    {stack : List Memory} (h : Reachable s) (hops : s.operateAll? ops = some (s', records))
    (htop : s.history.memories <+: stack) :
    s'.history.memories <+: s.unbounded stack ops := by
  induction ops generalizing s stack records with
  | nil =>
      cases hops
      exact htop
  | cons operation rest ih =>
      obtain ⟨mid, answer, later, hanswer, hrest, -⟩ := operateAll?_cons_eq_some.1 hops
      rw [unbounded]
      cases answer with
      | error e =>
          simp only [hanswer]
          obtain ⟨rfl, -⟩ := operate?_refused hanswer
          exact ih h hrest htop
      | ok events =>
          simp only [hanswer]
          exact ih (.operate h hanswer) hrest (isPrefix_stackAfter h hanswer htop)

end Stage

theorem StageConfig.historyDepth_pos {config : StageConfig} (h : config.fault? = none) :
    0 < config.historyDepth := by
  rw [Nat.pos_iff_ne_zero]
  intro hzero
  unfold fault? at h
  simp only [hzero, ↓reduceIte] at h
  repeat' split at h
  all_goals cases h

/-- The settings were looked at when the stage was made, so there is room for one memory. -/
theorem Reachable.maxDepth_eq {s : Stage} (h : Reachable s) :
    s.history.maxDepth = s.config.historyDepth := by
  have hpos : 0 < s.config.historyDepth := by
    refine Reachable.induction (P := fun x => 0 < x.config.historyDepth) ?_ ?_ h
    · rintro config x hnew
      rw [hnew.config_eq]
      exact config.historyDepth_pos hnew.faultless
    · intro x events started x' hx hmove
      rwa [hmove.config_eq]
  rw [h.remembered.maxDepth]
  exact Nat.max_eq_left hpos

/-- The history never holds more than its greatest depth. -/
theorem Reachable.depth_le {s : Stage} (h : Reachable s) :
    s.history.depth ≤ s.config.historyDepth := by
  induction h with
  | new hnew =>
      rw [UndoHistory.depth, hnew.memories_eq]
      exact Nat.zero_le _
  | @operate s s' operation answer hs hop ih =>
      have hroom : max s.config.historyDepth 1 = s.config.historyDepth :=
        hs.remembered.maxDepth.symm.trans hs.maxDepth_eq
      rw [Stage.operate?_config hop, UndoHistory.depth,
        Stage.operate?_history hop hs.remembered.maxDepth]
      by_cases hundo : operation = .input .undo
      · subst hundo
        exact Nat.le_trans (Nat.le_of_eq List.length_tail) (Nat.le_trans (Nat.sub_le _ _) ih)
      · by_cases hreset : operation = .input .reset
        · subst hreset
          exact Nat.zero_le _
        · rw [Stage.remember_of_ne s hundo hreset, hroom]
          split
          · exact ih
          · exact List.length_take_le _ _

section Step

variable {s s' : Stage} {operation : Operation} {answer : Except StageError (List StageEvent)}

/-- An operation that starts runs remembers the sprite as it was before, once. -/
theorem Reachable.history_of_start (h : Reachable s)
    (hop : s.operate? operation = some (s', answer)) (hstarts : startsRuns answer = true) :
    s'.history.memories
        = (.capture s.sprite :: s.history.memories).take s.config.historyDepth ∧
      s'.history.depth = min (s.history.depth + 1) s.config.historyDepth := by
  have hannounced : (s.announced operation).isEmpty = false := by
    rw [h.startsRuns_eq hop] at hstarts
    simpa using hstarts
  have hmemories : s'.history.memories
      = (.capture s.sprite :: s.history.memories).take s.config.historyDepth := by
    rw [Stage.operate?_history hop h.remembered.maxDepth, Stage.remember_of_ne, hannounced,
      ← h.remembered.maxDepth, h.maxDepth_eq]
    · rfl
    · rintro rfl
      cases hannounced
    · rintro rfl
      cases hannounced
  refine ⟨hmemories, ?_⟩
  rw [UndoHistory.depth, hmemories, List.length_take, List.length_cons, Nat.min_comm]
  rfl

/-- Nothing but starts, undos and resets touches the history. -/
theorem Reachable.history_eq (h : Reachable s)
    (hop : s.operate? operation = some (s', answer)) (hstarts : startsRuns answer = false)
    (hundo : operation ≠ .input .undo) (hreset : operation ≠ .input .reset) :
    s'.history = s.history := by
  have hannounced : (s.announced operation).isEmpty = true := by
    rw [h.startsRuns_eq hop] at hstarts
    simpa using hstarts
  rw [Stage.operate?_history hop h.remembered.maxDepth, Stage.remember_of_ne s hundo hreset,
    hannounced]
  rfl

end Step

/-- An undo that finds something puts back what is on top of any stack of which the history is the
    top part. -/
theorem Stage.undo_restores_top {s : Stage} {stack : List Memory}
    (hsome : s.history.memories ≠ []) (htop : s.history.memories <+: stack) :
    ∃ top rest, stack = top :: rest ∧ s.undo.1.sprite.transform = top.transform ∧
      s.undo.1.sprite.speech.value = top.speech ∧
      s.undo.1.history.depth + 1 = s.history.depth ∧ s.undo.1.history.memories <+: rest := by
  cases hmemories : s.history.memories with
  | nil => exact absurd hmemories hsome
  | cons newest older =>
      rw [hmemories] at htop
      obtain ⟨deeper, rfl⟩ := htop
      refine ⟨newest, older ++ deeper, rfl, ?_, ?_, ?_, ?_⟩
      · rw [undo_sprite hmemories]
        rfl
      · rw [undo_sprite hmemories]
        rfl
      · rw [undo_history, UndoHistory.depth, UndoHistory.depth, hmemories]
        rfl
      · rw [undo_history, hmemories]
        exact List.prefix_append older deeper

/-- After any row of operations on a new stage the history is the top part of the unbounded stack,
    and no deeper than the settings allow. Whatever is done next: an operation that starts runs
    remembers the sprite as it was before, once, and the depth grows by one until it is the
    greatest. An undo on an empty history changes nothing and tells nothing, and any other undo puts
    back what is on top of the unbounded stack. A reset empties the history. Nothing else touches
    it. -/
theorem history_is_top_of_stack {config : StageConfig} {start s : Stage} {ops : List Operation}
    {records : List Record} (hnew : start.IsNew config)
    (hops : start.operateAll? ops = some (s, records)) :
    s.history.memories <+: start.unbounded [] ops ∧ s.history.depth ≤ config.historyDepth ∧
    ∀ operation s' answer, s.operate? operation = some (s', answer) →
      (startsRuns answer = true →
        s'.history.memories
            = (.capture s.sprite :: s.history.memories).take config.historyDepth ∧
          s'.history.depth = min (s.history.depth + 1) config.historyDepth) ∧
      (operation = .input .undo → s.history.memories = [] → s' = s ∧ answer = .ok []) ∧
      (operation = .input .undo → s.history.memories ≠ [] → ∃ top rest cancelled,
        start.unbounded [] ops = top :: rest ∧
        answer = .ok (cancelled ++ [.undone s'.history.depth]) ∧
        s'.sprite.transform = top.transform ∧ s'.sprite.speech.value = top.speech ∧
        s'.history.depth + 1 = s.history.depth ∧ s'.history.memories <+: rest) ∧
      (operation = .input .reset → s'.history.memories = []) ∧
      (startsRuns answer = false → operation ≠ .input .undo → operation ≠ .input .reset →
        s'.history = s.history) := by
  have hstart : Reachable start := .new hnew
  have hs : Reachable s := hstart.operateAll hops
  have hconfig : s.config = config := (Stage.operateAll?_config hops).trans hnew.config_eq
  have htop : s.history.memories <+: start.unbounded [] ops :=
    Stage.isPrefix_unbounded hstart hops (hnew.memories_eq ▸ List.nil_prefix)
  refine ⟨htop, hconfig ▸ hs.depth_le, fun operation s' answer hanswer => ?_⟩
  refine ⟨fun hstarts => hconfig ▸ hs.history_of_start hanswer hstarts, ?_, ?_, ?_,
    fun hnone hundo hreset => hs.history_eq hanswer hnone hundo hreset⟩
  · rintro rfl hempty
    have hundo : Stage.accepted s.undo = (s', answer) := Option.some.inj hanswer
    rw [Stage.undo_of_empty hempty] at hundo
    cases hundo
    exact ⟨rfl, rfl⟩
  · rintro rfl hsome
    cases hanswer
    obtain ⟨top, rest, hstack, hrestored⟩ := Stage.undo_restores_top hsome htop
    exact ⟨top, rest, _, hstack, congrArg Except.ok (Stage.undo_events hsome), hrestored⟩
  · rintro rfl
    cases hanswer
    rfl

/-- With room for one memory only, the second of two clicks makes the first one fall out. An undo
    goes back to before the second click, and then there is nothing left to undo, though the
    unbounded stack still holds what was before the first. -/
theorem history_is_top_of_stack_of_two_clicks :
    let config : StageConfig := { historyDepth := 1 }
    let start := Stage.build ⟨[[.trigger .spriteClicked, .move 10]], none⟩ config
    let clicks : List Operation := [.input .spriteClicked, .input .spriteClicked]
    ∃ s records, start.operateAll? clicks = some (s, records) ∧
      s.history.memories <+: start.unbounded [] clicks ∧
      s.history.depth = 1 ∧ (start.unbounded [] clicks).length = 2 ∧
      s.history.memories ≠ [] ∧
      (∃ s' answer, s.operate? (.input .undo) = some (s', answer) ∧
        ∃ top rest, start.unbounded [] clicks = top :: rest ∧
          s'.sprite.transform = top.transform ∧ s'.history.depth + 1 = s.history.depth) := by
  intro config start clicks
  have hrun : ((start.operateAll? clicks).map fun last => last.1.history.depth,
      (start.unbounded [] clicks).length) = (some 1, 2) := by decide +kernel
  obtain ⟨hrun, hlength⟩ := Prod.mk.inj hrun
  obtain ⟨⟨s, records⟩, hops, hdepth⟩ := Option.map_eq_some_iff.1 hrun
  have hnew : start.IsNew config := Stage.isNew_build (by decide +kernel) _
  obtain ⟨htop, -, hall⟩ := history_is_top_of_stack hnew hops
  have hdepth : s.history.memories.length = 1 := hdepth
  have hsome : s.history.memories ≠ [] := fun hnone => by simp [hnone] at hdepth
  have hanswer : s.operate? (.input .undo) = some (Stage.accepted s.undo) := rfl
  obtain ⟨-, -, hundo, -⟩ := hall _ _ _ hanswer
  obtain ⟨top, rest, _, hstack, -, htransform, -, hless, -⟩ := hundo rfl hsome
  exact ⟨s, records, hops, htop, hdepth, hlength, hsome, _, _, hanswer, top, rest, hstack,
    htransform, hless⟩

end SpriteStage

import SpriteStage.Proofs.Execution
set_option autoImplicit false

/-! # Rows of operations

`Stage.operateAll?` performs operations one after the other and writes down the answer to each with
the reading of the clock. A row goes on behind an operation that is refused; the stage is then as it
was (`Stage.operate?_refused`).

Two principles say what a row keeps. What every operation keeps is kept by a row
(`Stage.operateAll?_induction`). What is kept by firing the first entry and by waiting when nothing
is due is kept by every operation that only lets time pass (`Stage.passing_induction`), and so is
what is kept by advancing to an instant (`Execution.induction_of_readings`, where the answer to an
input is a move that does not touch the clock). -/

namespace SpriteStage

/-- Whether an operation does nothing but let time pass. -/
def Operation.isWait : Operation → Bool
  | .tick _ | .advanceTo _ | .settle => true
  | .load _ | .input _ => false

/-- What is written down of an operation: the reading of the clock after it, and the answer. -/
structure Record where
  operation : Operation
  instant : Instant
  answer : Except StageError (List StageEvent)

namespace Stage

/-! ## One operation after the other -/

/-- Perform operations one after the other. There is no result if one of them never ends. -/
def operateAll? (s : Stage) : List Operation → Option (Stage × List Record)
  | [] => some (s, [])
  | operation :: rest =>
    match s.operate? operation with
    | none => none
    | some (mid, answer) =>
      (operateAll? mid rest).map fun last =>
        (last.1, ⟨operation, mid.now, answer⟩ :: last.2)

section Rows

variable {s s' : Stage} {operation : Operation} {answer : Except StageError (List StageEvent)}
  {ops : List Operation} {records : List Record}

/-- Nothing but an input is refused, and the stage is then as it was. -/
theorem operate?_refused {e : StageError} (h : s.operate? operation = some (s', .error e)) :
    s' = s ∧ ∃ input, operation = .input input ∧ s.handle input = (s, .error e) := by
  cases operation with
  | input input =>
      have hhandle : s.handle input = (s', .error e) := Option.some.inj h
      obtain rfl := eq_of_refused hhandle
      exact ⟨rfl, input, rfl, hhandle⟩
  | load _ => cases h
  | tick _ | advanceTo _ | settle =>
      obtain ⟨_, -, hanswer⟩ := map_accepted_eq_some.1 h
      cases hanswer

theorem operateAll?_cons_eq_some :
    s.operateAll? (operation :: ops) = some (s', records) ↔
      ∃ mid answer rest, s.operate? operation = some (mid, answer) ∧
        mid.operateAll? ops = some (s', rest) ∧ records = ⟨operation, mid.now, answer⟩ :: rest := by
  rw [operateAll?]
  cases hop : s.operate? operation with
  | none => simp
  | some first =>
      simp only [Option.map_eq_some_iff, Prod.mk.injEq, Option.some.injEq]
      constructor
      · rintro ⟨⟨_, rest⟩, hrest, rfl, rfl⟩
        exact ⟨first.1, first.2, rest, rfl, hrest, rfl⟩
      · rintro ⟨_, _, rest, rfl, hrest, rfl⟩
        exact ⟨(s', rest), hrest, rfl, rfl⟩

/-- What every operation of a row keeps and tells holds of the row. -/
theorem operateAll?_answers {P : Stage → Prop} {Q : StageEvent → Prop}
    (step : ∀ operation ∈ ops, ∀ s s' answer, P s → s.operate? operation = some (s', answer) →
      P s' ∧ ∀ event ∈ eventsOf answer, Q event)
    (h : s.operateAll? ops = some (s', records)) (hs : P s) :
    P s' ∧ ∀ r ∈ records, ∀ events, r.answer = .ok events → ∀ event ∈ events, Q event := by
  induction ops generalizing s records with
  | nil =>
      cases h
      exact ⟨hs, fun r hr => absurd hr List.not_mem_nil⟩
  | cons operation ops ih =>
      obtain ⟨mid, answer, rest, hop, hrest, rfl⟩ := operateAll?_cons_eq_some.1 h
      obtain ⟨hmid, hevents⟩ := step operation List.mem_cons_self _ _ _ hs hop
      obtain ⟨hlast, hlater⟩ :=
        ih (fun op hmem => step op (List.mem_cons_of_mem _ hmem)) hrest hmid
      refine ⟨hlast, fun r hr => ?_⟩
      rcases List.mem_cons.1 hr with rfl | hr
      · exact fun events hanswer event hevent => hevents event (mem_eventsOf.2 ⟨_, hanswer, hevent⟩)
      · exact hlater r hr

/-- What every operation of a row keeps is kept by the row. -/
theorem operateAll?_induction {P : Stage → Prop}
    (step : ∀ operation ∈ ops, ∀ s s' answer, P s → s.operate? operation = some (s', answer) →
      P s')
    (h : s.operateAll? ops = some (s', records)) (hs : P s) : P s' :=
  (operateAll?_answers (Q := fun _ => True)
    (fun operation hmem x x' answer hx hop =>
      ⟨step operation hmem x x' answer hx hop, fun _ _ => trivial⟩) h hs).1

/-- A row with one more operation at its end. -/
theorem operateAll?_concat {mid : Stage} (h : s.operateAll? ops = some (mid, records))
    (hop : mid.operate? operation = some (s', answer)) :
    s.operateAll? (ops ++ [operation])
      = some (s', records ++ [⟨operation, s'.now, answer⟩]) := by
  induction ops generalizing s records with
  | nil =>
      cases h
      exact operateAll?_cons_eq_some.2 ⟨s', _, [], hop, rfl, rfl⟩
  | cons first ops ih =>
      obtain ⟨next, answer, rest, hfirst, hrest, rfl⟩ := operateAll?_cons_eq_some.1 h
      exact operateAll?_cons_eq_some.2 ⟨next, answer, _, hfirst, ih hrest, rfl⟩

end Rows

/-! ## The clock -/

theorem load_now (s : Stage) (program : Program) : (s.load program).1.now = s.now := by
  unfold load
  cases program.clicked <;> simp [performOnce]

/-- The answer to an input takes no time. -/
theorem Answers.now_eq {s s' : Stage} {input : StageInput} {events : List StageEvent}
    (ha : s.Answers input s' events) : s'.now = s.now := by
  cases ha with
  | @click _ origin _ => exact s.dispatch_now origin
  | undo => exact s.undo_now
  | @once _ action _ => exact s.perform_now action
  | otherKey _ | point _ | reset | calibrate _ | resize _ | openDemo | closeDemo | startDemo _ _
  | walking _ _ => rfl

theorem handle_now {s s' : Stage} {input : StageInput}
    {answer : Except StageError (List StageEvent)} (h : s.handle input = (s', answer)) :
    s'.now = s.now := by
  cases answer with
  | error e => rw [eq_of_refused h]
  | ok events => exact (answers_of_handle h).now_eq

/-- The clock never goes back. -/
theorem Moves.now_le {s s' : Stage} {events : List StageEvent} {started : List Announcement}
    (m : Moves s events started s') : s.now ≤ s'.now := by
  cases m with
  | click origin => exact Nat.le_of_eq (s.dispatch_now origin).symm
  | undo => exact Nat.le_of_eq s.undo_now.symm
  | once action => exact Nat.le_of_eq (s.perform_now action).symm
  | fire hentries =>
      rw [fire_now]
      exact Nat.le_max_left _ _
  | wait _ _ => exact Nat.le_max_left _ _
  | nothing | replace _ | reset | point _ | calibrate _ | resize _ | openDemo | closeDemo
  | startDemo _ _ => exact Nat.le_refl _

/-- The settings are those with which the stage was made. -/
theorem Moves.config_eq {s s' : Stage} {events : List StageEvent} {started : List Announcement}
    (m : Moves s events started s') : s'.config = s.config := by
  cases m with
  | click origin =>
      cases hplan : s.program.plan origin s.isPlaying with
      | ignore reason => rw [dispatch_of_ignore hplan]
      | start runs => rw [dispatch_of_start hplan, firstSteps_config, startAll_eq]
  | undo =>
      rcases s.undo_cases with ⟨-, heq⟩ | ⟨newest, rest, -, heq⟩
      · rw [heq]
      · rw [heq]
        unfold beforeUndo
        split <;> rfl
  | once action => rw [perform_config]
  | fire hentries =>
      rw [fire_config]
      rfl
  | nothing | replace _ | reset | point _ | calibrate _ | resize _ | openDemo | closeDemo
  | startDemo _ _ | wait _ _ => rfl

/-! ## While time passes -/

section Passing

variable {s s' : Stage} {target : Instant} {events : List TimedEvent}
  {P : Stage → List TimedEvent → Prop}

/-- What every firing until an instant keeps is kept by all of them. -/
theorem drainTimed_induction
    (fire : ∀ {s log entry rest}, s.agenda.entries = entry :: rest → entry.due ≤ target → P s log →
      P ((s.arrive entry rest).fire entry.timer).1
        (log ++ ((s.arrive entry rest).fire entry.timer).1.stamp
          ((s.arrive entry rest).fire entry.timer).2))
    {fuel : Nat} {log : List TimedEvent} (h : s.drainTimed target fuel = some (s', events))
    (hs : P s log) : P s' (log ++ events) := by
  induction fuel generalizing s log events with
  | zero =>
      unfold drainTimed at h
      cases hfire : s.fireNext? target with
      | none =>
          simp only [hfire, Option.some.injEq, Prod.mk.injEq] at h
          obtain ⟨rfl, rfl⟩ := h
          rwa [List.append_nil]
      | some result => simp [hfire] at h
  | succ fuel ih =>
      unfold drainTimed at h
      cases hfire : s.fireNext? target with
      | none =>
          simp only [hfire, Option.some.injEq, Prod.mk.injEq] at h
          obtain ⟨rfl, rfl⟩ := h
          rwa [List.append_nil]
      | some result =>
          obtain ⟨mid, first⟩ := result
          simp only [hfire, Option.bind_eq_bind, Option.bind_eq_some_iff] at h
          obtain ⟨⟨last, later⟩, hlater, heq⟩ := h
          simp only [Option.some.injEq, Prod.mk.injEq] at heq
          obtain ⟨rfl, rfl⟩ := heq
          obtain ⟨entry, rest, hentries, hdue, rfl, rfl⟩ := exists_of_fireNext? hfire
          rw [← List.append_assoc]
          exact ih hlater (fire hentries hdue hs)

/-- Advancing is firing all that is due and then waiting. -/
theorem advanceTimed?_induction
    (fire : ∀ {s log entry rest}, s.agenda.entries = entry :: rest →
      entry.due ≤ min target lastInstant → P s log →
      P ((s.arrive entry rest).fire entry.timer).1
        (log ++ ((s.arrive entry rest).fire entry.timer).1.stamp
          ((s.arrive entry rest).fire entry.timer).2))
    (log : List TimedEvent) (h : s.advanceTimed? target = some (s', events)) (hs : P s log) :
    ∃ mid, P mid (log ++ events) ∧ mid.fireNext? (min target lastInstant) = none ∧
      s' = mid.waitUntil (min target lastInstant) := by
  obtain ⟨⟨mid, events'⟩, hdrain, heq⟩ := Option.map_eq_some_iff.1 h
  obtain ⟨rfl, rfl⟩ := Prod.mk.inj heq
  exact ⟨mid, drainTimed_induction fire hdrain hs, (path_of_drainTimed hdrain).2, rfl⟩

/-- What advancing to an instant keeps is kept when the stage settles. -/
theorem settleTimedWithin_induction
    (advance : ∀ {s s' target log events}, P s log → s.advanceTimed? target = some (s', events) →
      P s' (log ++ events))
    {fuel : Nat} {log : List TimedEvent} (h : s.settleTimedWithin fuel = some (s', events))
    (hs : P s log) : P s' (log ++ events) := by
  induction fuel generalizing s log events with
  | zero =>
      unfold settleTimedWithin at h
      split at h
      · cases h
        rwa [List.append_nil]
      · cases hdue : s.agenda.nextDue? with
        | none =>
            simp only [hdue] at h
            cases h
            rwa [List.append_nil]
        | some due => simp [hdue] at h
  | succ fuel ih =>
      unfold settleTimedWithin at h
      split at h
      · cases h
        rwa [List.append_nil]
      · cases hdue : s.agenda.nextDue? with
        | none =>
            simp only [hdue] at h
            cases h
            rwa [List.append_nil]
        | some due =>
            simp only [hdue, Option.bind_eq_bind, Option.bind_eq_some_iff] at h
            obtain ⟨⟨mid, first⟩, hadvance, ⟨last, later⟩, hlater, heq⟩ := h
            simp only [Option.some.injEq, Prod.mk.injEq] at heq
            obtain ⟨rfl, rfl⟩ := heq
            rw [← List.append_assoc]
            exact ih hlater (advance hs hadvance)

/-- What advancing to an instant keeps is kept by every operation that only lets time pass. -/
theorem waiting_induction
    (advance : ∀ {s s' target log events}, P s log → s.advanceTimed? target = some (s', events) →
      P s' (log ++ events))
    {operation : Operation} (hwait : operation.isWait = true) (log : List TimedEvent)
    {answer : Except StageError (List TimedEvent)}
    (h : s.operateTimed? operation = some (s', answer)) (hs : P s log) :
    P s' (log ++ eventsOf answer) := by
  cases operation with
  | load program => cases hwait
  | input input => cases hwait
  | tick nanoseconds =>
      obtain ⟨_, hresult, rfl⟩ := map_accepted_eq_some.1 h
      exact advance hs hresult
  | advanceTo target =>
      obtain ⟨_, hresult, rfl⟩ := map_accepted_eq_some.1 h
      exact advance hs hresult
  | settle =>
      obtain ⟨_, hresult, rfl⟩ := map_accepted_eq_some.1 h
      exact settleTimedWithin_induction advance hresult hs

end Passing

/-- The events of an operation can be written down with their instants. -/
theorem exists_operateTimed? {s s' : Stage} {operation : Operation}
    {answer : Except StageError (List StageEvent)}
    (h : s.operate? operation = some (s', answer)) :
    ∃ timed, s.operateTimed? operation = some (s', timed) ∧
      answer = timed.map (·.map (·.event)) := by
  rw [operate?_eq, Option.map_eq_some_iff] at h
  obtain ⟨⟨after, timed⟩, htimed, heq⟩ := h
  cases heq
  exact ⟨timed, htimed, rfl⟩

/-- What is kept by firing the first entry, and by waiting when nothing is due, is kept while time
    passes. -/
theorem passing_induction {P : Stage → Prop}
    (fire : ∀ {s entry rest}, s.agenda.entries = entry :: rest → P s →
      P ((s.arrive entry rest).fire entry.timer).1)
    (wait : ∀ {s target}, s.fireNext? target = none → target ≤ lastInstant → P s →
      P (s.waitUntil target))
    {s s' : Stage} {operation : Operation} {answer : Except StageError (List StageEvent)}
    (hwait : operation.isWait = true) (h : s.operate? operation = some (s', answer)) (hs : P s) :
    P s' := by
  obtain ⟨timed, htimed, -⟩ := exists_operateTimed? h
  refine waiting_induction (P := fun s _ => P s) ?_ hwait [] htimed hs
  intro s s' target log events hs hadvance
  obtain ⟨mid, hmid, hnone, rfl⟩ := advanceTimed?_induction (P := fun s _ => P s)
    (fun hentries _ hs => fire hentries hs) log hadvance hs
  exact wait hnone (Nat.min_le_right _ _) hmid

theorem Path.config_eq {s s' : Stage} {log : List TimedEvent} {started : List Announcement}
    (h : Path s log started s') : s'.config = s.config := by
  induction h with
  | nil => rfl
  | cons move _ ih => exact ih.trans move.config_eq

theorem operate?_config {s s' : Stage} {operation : Operation}
    {answer : Except StageError (List StageEvent)}
    (h : s.operate? operation = some (s', answer)) : s'.config = s.config := by
  obtain ⟨timed, htimed, -⟩ := exists_operateTimed? h
  exact (path_of_operateTimed? htimed).config_eq

theorem operateAll?_config {s s' : Stage} {ops : List Operation} {records : List Record}
    (h : s.operateAll? ops = some (s', records)) : s'.config = s.config :=
  operateAll?_induction (P := fun x => x.config = s.config)
    (fun _ _ _ _ _ hx hop => (operate?_config hop).trans hx) h rfl

/-- No operation sets the clock back. -/
theorem operate?_now_le {s s' : Stage} {operation : Operation}
    {answer : Except StageError (List StageEvent)}
    (h : s.operate? operation = some (s', answer)) : s.now ≤ s'.now := by
  cases hwait : operation.isWait with
  | true =>
      refine passing_induction (P := fun x => s.now ≤ x.now) ?_ ?_ hwait h (Nat.le_refl _)
      · intro x entry rest hentries hx
        exact Nat.le_trans hx (Moves.fire hentries).now_le
      · intro x target hnone hlast hx
        exact Nat.le_trans hx (Moves.wait hnone hlast).now_le
  | false =>
      cases operation with
      | load program =>
          cases h
          exact Nat.le_of_eq (s.load_now program).symm
      | input input => exact Nat.le_of_eq (handle_now (Option.some.inj h)).symm
      | tick _ | advanceTo _ | settle => cases hwait

end Stage

/-! ## Executions from one reading of the clock to the next -/

/-- What holds of a new stage, is kept by every move that does not touch the clock, and is kept by
    advancing to an instant holds throughout an execution. -/
theorem Execution.induction_of_readings {config : StageConfig}
    {P : Stage → List TimedEvent → Prop} (new : ∀ s, s.IsNew config → P s [])
    (still : ∀ s log events started s', P s log → Stage.Moves s events started s' →
      s'.now = s.now → P s' (log ++ s'.stamp events))
    (advance : ∀ {s s' target log events}, P s log → s.advanceTimed? target = some (s', events) →
      P s' (log ++ events))
    {s : Stage} {log : List TimedEvent} {plans : List Announcement}
    (h : Execution config s log plans) : P s log := by
  induction h with
  | new h => exact new _ h
  | @operate s s' log plans operation answer _ hop ih =>
      cases hwait : operation.isWait with
      | true => exact Stage.waiting_induction advance hwait _ hop ih
      | false =>
          cases operation with
          | load program =>
              cases hop
              have hreplace := still _ _ _ _ _ ih (.replace s program) rfl
              simp only [Stage.stamp, List.map_nil, List.append_nil] at hreplace
              unfold Stage.load
              cases hclicked : program.clicked with
              | none => exact still _ _ _ _ _ ih (.replace s program) rfl
              | some action =>
                  exact still _ _ _ _ _ hreplace (.once _ action) (Stage.perform_now _ action)
          | input input =>
              obtain ⟨answer, hhandle, rfl⟩ := Stage.handle_of_operateTimed? hop
              cases answer with
              | error e =>
                  rw [Stage.eq_of_refused hhandle]
                  exact (List.append_nil log).symm ▸ ih
              | ok events =>
                  exact still _ _ _ _ _ ih (Stage.moves_of_handle hhandle)
                    (Stage.handle_now hhandle)
          | tick _ | advanceTo _ | settle => cases hwait

theorem Reachable.operateAll {s s' : Stage} {ops : List Operation} {records : List Record}
    (h : Reachable s) (hops : s.operateAll? ops = some (s', records)) : Reachable s' :=
  Stage.operateAll?_induction (fun _ _ _ _ _ hs hop => .operate hs hop) hops h

/-- The stages that can be reached are those at the end of a row of operations on a new one. -/
theorem reachable_iff {s : Stage} :
    Reachable s ↔ ∃ config start ops records, Stage.IsNew config start ∧
      start.operateAll? ops = some (s, records) := by
  constructor
  · intro h
    induction h with
    | @new config s hnew => exact ⟨config, s, [], [], hnew, rfl⟩
    | operate _ hop ih =>
        obtain ⟨config, start, ops, records, hnew, hops⟩ := ih
        exact ⟨config, start, _, _, hnew, Stage.operateAll?_concat hops hop⟩
  · rintro ⟨config, start, ops, records, hnew, hops⟩
    exact (Reachable.new hnew).operateAll hops

end SpriteStage

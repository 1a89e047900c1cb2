import SpriteStage.Proofs.Draining
set_option autoImplicit false

/-! # Firing by firing

`Stage.Fires target` is the row of firings of `Stage.Drains target` with each firing by itself: the
entry that fires and its events. So it says at which instant each event happens, which is the instant
at which the entry is due (`Stage.fires_of_drainTimed`). -/

namespace SpriteStage

/-- An entry of the agenda that fires, and what it has to tell. -/
structure Firing where
  entry : Appointment
  events : List StageEvent

/-- The events with the instant at which the entry is due. -/
def Firing.told (f : Firing) : List TimedEvent := f.events.map (⟨f.entry.due, ·⟩)

/-- Without the instants what is told are the events. -/
theorem map_event_told (row : List Firing) :
    (row.flatMap Firing.told).map (·.event) = row.flatMap (·.events) := by
  rw [List.map_flatMap]
  congr 1
  funext f
  simp [Firing.told, Function.comp_def]

theorem exists_of_mem_told {row : List Firing} {e : TimedEvent} (he : e ∈ row.flatMap Firing.told) :
    ∃ f ∈ row, e.instant = f.entry.due ∧ e.event ∈ f.events := by
  obtain ⟨f, hf, he⟩ := List.mem_flatMap.1 he
  obtain ⟨event, hevent, rfl⟩ := List.mem_map.1 he
  exact ⟨f, hf, rfl, hevent⟩

/-- If all of a row is due at the same instant, everything is told with this instant. -/
theorem told_of_due_eq {row : List Firing} {due : Instant} (h : ∀ f ∈ row, f.entry.due = due) :
    row.flatMap Firing.told = (row.flatMap (·.events)).map (⟨due, ·⟩) := by
  induction row with
  | nil => rfl
  | cons f rest ih =>
      rw [List.flatMap_cons, List.flatMap_cons, List.map_append,
        ih fun g hg => h g (List.mem_cons_of_mem _ hg), Firing.told, h f List.mem_cons_self]

namespace Stage

/-- What is due by an instant fires, entry after entry, until nothing is left. -/
inductive Fires (target : Instant) : Stage → List Firing → Stage → Prop
  | done {s : Stage} (hnone : s.fireNext? target = none) : Fires target s [] s
  | fire {s s' : Stage} {entry : Appointment} {rest : List Appointment} {row : List Firing}
      (hentries : s.agenda.entries = entry :: rest) (hdue : entry.due ≤ target)
      (hrest : Fires target ((s.arrive entry rest).fire entry.timer).1 row s') :
      Fires target s (⟨entry, ((s.arrive entry rest).fire entry.timer).2⟩ :: row) s'

/-! ## Rows with and without their firings -/

section Rows

variable {target : Instant} {s s' : Stage} {row : List Firing}

theorem Fires.drains (h : Fires target s row s') :
    Drains target s (row.flatMap (·.events)) s' := by
  induction h with
  | done hnone => exact .done hnone
  | fire hentries hdue _ ih =>
      exact .fire (fireNext?_eq_some.2 ⟨_, _, hentries, hdue, rfl⟩) ih

theorem Drains.exists_fires {events : List StageEvent} (h : Drains target s events s') :
    ∃ row, Fires target s row s' ∧ events = row.flatMap (·.events) := by
  induction h with
  | done hnone => exact ⟨[], .done hnone, rfl⟩
  | fire hfire _ ih =>
      obtain ⟨entry, rest, hentries, hdue, rfl, rfl⟩ := exists_of_fireNext? hfire
      obtain ⟨row, hrow, rfl⟩ := ih
      exact ⟨_, .fire hentries hdue hrow, rfl⟩

/-- There is one row at most. -/
theorem Fires.unique {other : Stage} {row' : List Firing} (h : Fires target s row s')
    (h' : Fires target s row' other) : row = row' ∧ s' = other := by
  induction h generalizing row' with
  | done hnone =>
      cases h' with
      | done _ => exact ⟨rfl, rfl⟩
      | fire hentries hdue _ =>
          exact absurd hdue (Nat.not_le.2 (fireNext?_eq_none.1 hnone _ (by simp [hentries])))
  | fire hentries hdue _ ih =>
      cases h' with
      | done hnone =>
          exact absurd hdue (Nat.not_le.2 (fireNext?_eq_none.1 hnone _ (by simp [hentries])))
      | fire hentries' hdue' hrest =>
          obtain ⟨rfl, rfl⟩ := List.cons.inj (hentries.symm.trans hentries')
          obtain ⟨rfl, rfl⟩ := ih hrest
          exact ⟨rfl, rfl⟩

/-! ## Instants -/

theorem Fires.timely (h : Fires target s row s') (ht : Timely s) : Timely s' := by
  induction h with
  | done _ => exact ht
  | fire hentries _ _ ih => exact ih ((ht.arrive hentries).fire _)

/-- Nothing fires that is due after the instant. -/
theorem Fires.due_le (h : Fires target s row s') : ∀ f ∈ row, f.entry.due ≤ target := by
  induction h with
  | done _ => exact nofun
  | fire _ hdue _ ih =>
      intro f hf
      rcases List.mem_cons.1 hf with rfl | hf
      · exact hdue
      · exact ih f hf

/-- Nothing fires before what is due first, as the clock never goes back. -/
theorem Fires.le_due (h : Fires target s row s') (ht : Timely s) {first : Instant}
    (hfirst : ∀ e ∈ s.agenda.entries, first ≤ e.due) : ∀ f ∈ row, first ≤ f.entry.due := by
  induction h with
  | done _ => exact nofun
  | @fire s _ entry rest _ hentries _ _ ih =>
      have hle : first ≤ entry.due := hfirst entry (hentries ▸ List.mem_cons_self)
      have hmid := (ht.arrive hentries).fire entry.timer
      intro f hf
      rcases List.mem_cons.1 hf with rfl | hf
      · exact hle
      · refine ih hmid (fun e he => ?_) f hf
        have hnow := (hmid.due e he).1
        rw [fire_now, ht.now_arrive hentries] at hnow
        exact Nat.le_trans hle hnow

/-- When an entry fires the clock reads the instant at which it is due. -/
theorem fires_of_drainTimed {fuel : Nat} {log : List TimedEvent}
    (h : s.drainTimed target fuel = some (s', log)) (ht : Timely s) :
    ∃ row, Fires target s row s' ∧ log = row.flatMap Firing.told := by
  induction fuel generalizing s log with
  | zero =>
      unfold drainTimed at h
      cases hfire : s.fireNext? target with
      | none =>
          simp only [hfire, Option.some.injEq, Prod.mk.injEq] at h
          obtain ⟨rfl, rfl⟩ := h
          exact ⟨[], .done hfire, rfl⟩
      | some result => simp [hfire] at h
  | succ fuel ih =>
      unfold drainTimed at h
      cases hfire : s.fireNext? target with
      | none =>
          simp only [hfire, Option.some.injEq, Prod.mk.injEq] at h
          obtain ⟨rfl, rfl⟩ := h
          exact ⟨[], .done hfire, rfl⟩
      | some result =>
          obtain ⟨mid, first⟩ := result
          simp only [hfire, Option.bind_eq_bind, Option.bind_eq_some_iff] at h
          obtain ⟨⟨last, later⟩, hlater, heq⟩ := h
          simp only [Option.some.injEq, Prod.mk.injEq] at heq
          obtain ⟨rfl, rfl⟩ := heq
          obtain ⟨entry, rest, hentries, hdue, rfl, rfl⟩ := exists_of_fireNext? hfire
          obtain ⟨row, hrow, rfl⟩ := ih hlater ((ht.arrive hentries).fire entry.timer)
          refine ⟨_, .fire hentries hdue hrow, ?_⟩
          rw [List.flatMap_cons, stamp, fire_now, ht.now_arrive hentries, Firing.told]

end Rows

/-! ## Letting time pass -/

section Advance

variable {s s' : Stage} {target : Instant}

/-- Letting time pass until an instant is firing what is due, each entry at its instant, and then
    waiting. -/
theorem exists_fires_of_advanceTimed? {log : List TimedEvent} (ht : Timely s)
    (h : s.advanceTimed? target = some (s', log)) :
    ∃ row mid, Fires (min target lastInstant) s row mid ∧
      s' = mid.waitUntil (min target lastInstant) ∧ log = row.flatMap Firing.told := by
  obtain ⟨⟨mid, log'⟩, hdrain, heq⟩ := Option.map_eq_some_iff.1 h
  obtain ⟨rfl, rfl⟩ := Prod.mk.inj heq
  obtain ⟨row, hrow, rfl⟩ := fires_of_drainTimed hdrain ht
  exact ⟨row, mid, hrow, rfl, rfl⟩

theorem advanceTimed?_of_fires {row : List Firing} {mid : Stage} (ht : Timely s)
    (hends : s.Exhaustible (min target lastInstant)) (h : Fires (min target lastInstant) s row mid) :
    s.advanceTimed? target
      = some (mid.waitUntil (min target lastInstant), row.flatMap Firing.told) := by
  obtain ⟨result, hdrain⟩ := drain_isSome hends (Nat.le_refl _)
  rw [drain_eq, Option.map_eq_some_iff] at hdrain
  obtain ⟨⟨mid', log⟩, htimed, -⟩ := hdrain
  obtain ⟨row', hrow', rfl⟩ := fires_of_drainTimed htimed ht
  obtain ⟨rfl, rfl⟩ := h.unique hrow'
  rw [advanceTimed?, htimed]
  rfl

end Advance

end Stage

end SpriteStage

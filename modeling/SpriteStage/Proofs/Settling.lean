import SpriteStage.Proofs.Ending
set_option autoImplicit false

/-! # Settling

`Stage.Settles` is the row of waits that brings a stage to rest, each until the instant at which the
first entry is due, without a word of fuel. `Stage.settle?` finds it on every stage that can be
reached and settles at all (`Reachable.settle?_eq_some_iff`).

A wait that ends before anything is due, or just when the first entry is due, does not change how
the stage comes to rest (`Stage.Settles.of_advance`). -/

namespace SpriteStage

namespace Stage

/-- Time passes from one due entry to the next until the stage is settled. -/
inductive Settles : Stage → List StageEvent → Stage → Prop
  | settled {s : Stage} (hsettled : s.isSettled = true) : Settles s [] s
  | advance {s mid s' : Stage} {entry : Appointment} {rest : List Appointment}
      {events later : List StageEvent} (hunsettled : ¬ s.isSettled = true)
      (hentries : s.agenda.entries = entry :: rest)
      (hadvance : s.advanceTo? entry.due = some (mid, events)) (hrest : Settles mid later s') :
      Settles s (events ++ later) s'

section Settles

variable {s s' : Stage} {events : List StageEvent}

theorem settles_of_settleWithin {fuel : Nat} (h : s.settleWithin fuel = some (s', events)) :
    Settles s events s' := by
  induction fuel generalizing s events with
  | zero =>
      by_cases hsettled : s.isSettled = true
      · rw [settleWithin_of_isSettled hsettled] at h
        cases h
        exact .settled hsettled
      · obtain ⟨entry, rest, hentries⟩ := exists_entry hsettled
        rw [settleWithin_zero hsettled hentries] at h
        cases h
  | succ fuel ih =>
      by_cases hsettled : s.isSettled = true
      · rw [settleWithin_of_isSettled hsettled] at h
        cases h
        exact .settled hsettled
      · -- one wait, and the rest of the row is found with less fuel
        obtain ⟨entry, rest, hentries⟩ := exists_entry hsettled
        rw [settleWithin_succ hsettled hentries, Option.bind_eq_some_iff] at h
        obtain ⟨⟨mid, first⟩, hadvance, hrest⟩ := h
        obtain ⟨⟨last, later⟩, hlater, heq⟩ := Option.map_eq_some_iff.1 hrest
        cases heq
        exact .advance hsettled hentries hadvance (ih hlater)

namespace Settles

/-- There is one row at most. -/
theorem unique {other : Stage} {events' : List StageEvent} (h : Settles s events s')
    (h' : Settles s events' other) : events = events' ∧ s' = other := by
  induction h generalizing events' with
  | settled hsettled =>
      cases h' with
      | settled _ => exact ⟨rfl, rfl⟩
      | advance hunsettled _ _ _ => exact absurd hsettled hunsettled
  | advance hunsettled hentries hadvance _ ih =>
      cases h' with
      | settled hsettled => exact absurd hsettled hunsettled
      | advance _ hentries' hadvance' hrest =>
          obtain ⟨rfl, rfl⟩ := List.cons.inj (hentries.symm.trans hentries')
          obtain ⟨rfl, rfl⟩ := Prod.mk.inj (Option.some.inj (hadvance.symm.trans hadvance'))
          obtain ⟨rfl, rfl⟩ := ih hrest
          exact ⟨rfl, rfl⟩

/-- A stage comes to rest in the same way after a wait until the first entry is due, or until some
    instant before. -/
theorem of_advance {mid : Stage} {entry : Appointment} {rest : List Appointment} {target : Instant}
    {later : List StageEvent} (hunsettled : ¬ s.isSettled = true)
    (hentries : s.agenda.entries = entry :: rest) (htarget : target ≤ entry.due)
    (hends : s.Exhaustible (min entry.due lastInstant))
    (hadvance : s.advanceTo? target = some (mid, events)) (h : Settles mid later s') :
    Settles s (events ++ later) s' := by
  rcases Nat.lt_or_eq_of_le htarget with hlt | rfl
  · obtain ⟨stop, hdrains, hmid⟩ := advanceTo?_eq_some hadvance
    cases hdrains with
    | fire hfire _ =>
        -- the first entry is due later
        obtain ⟨_, _, hentries', hdue, -⟩ := fireNext?_eq_some.1 hfire
        obtain ⟨rfl, -⟩ := List.cons.inj (hentries.symm.trans hentries')
        exact absurd (Nat.le_trans hdue (Nat.min_le_left _ _)) (Nat.not_le.2 hlt)
    | done _ =>
        subst hmid
        cases h with
        | settled hsettled => exact absurd hsettled hunsettled
        | advance _ hentries' hnext hrest =>
            -- two waits until the first entry is due are one
            obtain ⟨rfl, rfl⟩ := List.cons.inj (hentries.symm.trans hentries')
            obtain ⟨first, stop, early, late, hearly, hlate, hall⟩ :=
              advanceTo?_pieces htarget hends
            obtain ⟨rfl, rfl⟩ := Prod.mk.inj (Option.some.inj (hadvance.symm.trans hearly))
            obtain ⟨rfl, rfl⟩ := Prod.mk.inj (Option.some.inj (hnext.symm.trans hlate))
            rw [← List.append_assoc]
            exact .advance hunsettled hentries hall hrest
  · exact .advance hunsettled hentries hadvance h

/-- The clock never goes back. -/
theorem now_le (h : Settles s events s') : s.now ≤ s'.now := by
  induction h with
  | settled _ => exact Nat.le_refl _
  | advance _ _ hadvance _ ih =>
      rw [advanceTo?_now hadvance] at ih
      lia

end Settles

end Settles

end Stage

/-- On a stage that can be reached and settles at all, settling is the row of waits. -/
theorem Reachable.settle?_eq_some_iff {s s' : Stage} {events : List StageEvent} (h : Reachable s)
    (hends : ¬ s.NeverSettles) : s.settle? = some (s', events) ↔ Stage.Settles s events s' := by
  constructor
  · exact Stage.settles_of_settleWithin
  · intro hsettles
    obtain ⟨⟨last, events'⟩, hlast⟩ := h.settleWithin_isSome hends (Nat.le_refl _)
    obtain ⟨rfl, rfl⟩ := hsettles.unique (Stage.settles_of_settleWithin hlast)
    exact hlast

end SpriteStage

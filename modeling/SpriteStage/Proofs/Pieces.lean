import SpriteStage.Proofs.Firings
set_option autoImplicit false

/-! # Time in pieces

Letting time pass until one instant and then until a later one is the same as letting it pass until
the later one at once (`Reachable.advance_in_pieces`): neither the stage nor the events tell how often
the clock was looked at.

Between the pieces the clock is set and the pointer is looked at. The clock is set anyway when the
next entry fires, and a look at the pointer can be repeated: stages are compared after a look at the
pointer (`Stage.refreshed`), and firing respects that. -/

namespace SpriteStage

/-! ## Looking at the pointer -/

/-- A look at the pointer is forgotten after a later one. -/
theorem PointerSampler.flush_flush (p : PointerSampler) {now later : Instant} (h : now ≤ later) :
    (p.flush now).flush later = p.flush later := by
  unfold flush
  cases hwaiting : p.waiting with
  | none => simp [hwaiting]
  | some position =>
      cases hsince : p.since with
      | none => simp [hwaiting, hsince]
      | some since =>
          by_cases hdue : after since p.throttleMs ≤ now
          · have hlater := Nat.le_trans hdue h
            simp [hdue, hlater]
          · simp [hdue, hwaiting, hsince]

namespace Stage

/-- The stage after a look at the pointer. -/
def refreshed (s : Stage) : Stage := { s with pointer := s.pointer.flush s.now }

section Refreshed

variable (s : Stage)

theorem refreshed_refreshed : s.refreshed.refreshed = s.refreshed := by
  simp [refreshed, PointerSampler.flush_flush _ (Nat.le_refl s.now)]

theorem waitUntil_refreshed (target : Instant) : s.refreshed.waitUntil target = s.waitUntil target := by
  simp [refreshed, waitUntil, PointerSampler.flush_flush _ (Nat.le_max_left s.now target)]

theorem waitUntil_waitUntil {a b : Instant} (hab : a ≤ b) :
    (s.waitUntil a).waitUntil b = s.waitUntil b := by
  have hnow : max (max s.now a) b = max s.now b := by
    rw [Nat.max_assoc, Nat.max_eq_right hab]
  have hle : max s.now a ≤ max s.now b := by lia
  simp [waitUntil, hnow, PointerSampler.flush_flush _ hle]

/-- An action begins with a look at the pointer. -/
theorem perform_refreshed (action : Action) : s.refreshed.perform action = s.perform action := by
  have hflush : (s.pointer.flush s.now).flush s.now = s.pointer.flush s.now :=
    PointerSampler.flush_flush _ (Nat.le_refl _)
  have hperformed : s.refreshed.performed action = s.performed action := by
    simp only [performed, refreshed, hflush]
    rfl
  rw [perform_eq, perform_eq, hperformed]
  simp only [refreshed, hflush]

theorem runStep_refreshed (run : RunId) (index : Nat) :
    (s.refreshed.runStep run index).1.refreshed = (s.runStep run index).1.refreshed ∧
      (s.refreshed.runStep run index).2 = (s.runStep run index).2 := by
  unfold runStep
  have hruns : s.refreshed.runs = s.runs := rfl
  rw [hruns]
  cases s.runs.enter? run index with
  | none => exact ⟨s.refreshed_refreshed, rfl⟩
  | some entered =>
      have hperform : ({ s.refreshed with runs := entered.2 } : Stage).perform entered.1
          = ({ s with runs := entered.2 } : Stage).perform entered.1 :=
        ({ s with runs := entered.2 } : Stage).perform_refreshed entered.1
      simp only [hperform, and_self]

theorem fire_refreshed (timer : Timer) :
    (s.refreshed.fire timer).1.refreshed = (s.fire timer).1.refreshed ∧
      (s.refreshed.fire timer).2 = (s.fire timer).2 := by
  have hflush : (s.pointer.flush s.now).flush s.now = s.pointer.flush s.now :=
    PointerSampler.flush_flush _ (Nat.le_refl _)
  cases timer with
  | step run index => exact s.runStep_refreshed run index
  | clear cell version =>
      by_cases hlive : version = s.sprite.version cell ∨ s.config.stalePolicy = .fire
      · simp [fire, fireClear, refreshed, hlive, hflush]
      · simp [fire, fireClear, refreshed, hlive, hflush]
  | demoTick session =>
      by_cases hlive : s.demo.isAnimating ∧ session = s.demo.session
      · simp [fire, fireDemoTick, refreshed, hlive, hflush, scheduleAfter]
      · simp [fire, fireDemoTick, refreshed, hlive, hflush]

theorem refreshed_agenda : s.refreshed.agenda = s.agenda := rfl

theorem arrive_refreshed (entry : Appointment) (rest : List Appointment) :
    (s.refreshed.arrive entry rest).refreshed = (s.arrive entry rest).refreshed := by
  simp [refreshed, arrive, PointerSampler.flush_flush _ (Nat.le_max_left s.now entry.due)]

end Refreshed

/-- Firing does not tell stages apart that are the same after a look at the pointer. -/
theorem fire_alike {s t : Stage} (h : s.refreshed = t.refreshed) (timer : Timer) :
    (s.fire timer).1.refreshed = (t.fire timer).1.refreshed ∧
      (s.fire timer).2 = (t.fire timer).2 := by
  obtain ⟨hs, hsevents⟩ := s.fire_refreshed timer
  obtain ⟨ht, htevents⟩ := t.fire_refreshed timer
  rw [← hs, ← ht, ← hsevents, ← htevents, h]
  exact ⟨rfl, rfl⟩

/-! ## Comparing rows of firings -/

namespace Fires

variable {target a b : Instant} {s s' : Stage} {row : List Firing}

theorem alike {t : Stage} (h : Fires target s row s') (hst : s.refreshed = t.refreshed) :
    ∃ t', Fires target t row t' ∧ s'.refreshed = t'.refreshed := by
  induction h generalizing t with
  | @done s hnone =>
      have hagenda : s.agenda = t.agenda := by
        rw [← s.refreshed_agenda, ← t.refreshed_agenda, hst]
      refine ⟨t, .done ?_, hst⟩
      rw [Stage.fireNext?_eq_none] at hnone ⊢
      rwa [← hagenda]
  | @fire s s' entry rest row hentries hdue hrest ih =>
      have hagenda : s.agenda = t.agenda := by
        rw [← s.refreshed_agenda, ← t.refreshed_agenda, hst]
      have harrive : (s.arrive entry rest).refreshed = (t.arrive entry rest).refreshed := by
        rw [← s.arrive_refreshed, ← t.arrive_refreshed, hst]
      obtain ⟨hmid, hevents⟩ := fire_alike harrive entry.timer
      obtain ⟨t', hfires, hlast⟩ := ih hmid
      refine ⟨t', ?_, hlast⟩
      rw [hevents]
      exact .fire (hagenda ▸ hentries) hdue hfires

/-- A row of firings up to a later instant begins with the one up to an earlier instant. -/
theorem split (hab : a ≤ b) (h : Fires b s row s') :
    ∃ early late mid, Fires a s early mid ∧ Fires b mid late s' ∧ row = early ++ late := by
  induction h with
  | done hnone =>
      refine ⟨[], [], _, .done ?_, .done hnone, rfl⟩
      rw [Stage.fireNext?_eq_none] at hnone ⊢
      exact fun e he => Nat.lt_of_le_of_lt hab (hnone e he)
  | @fire s s' entry rest row hentries hdue hrest ih =>
      by_cases hearly : entry.due ≤ a
      · obtain ⟨early, late, mid, hfirst, hlater, rfl⟩ := ih
        exact ⟨_ :: early, late, mid, .fire hentries hearly hfirst, hlater, rfl⟩
      · -- the first entry is due later, so nothing fires before
        refine ⟨[], _, s, .done ?_, .fire hentries hdue hrest, rfl⟩
        rw [Stage.fireNext?_eq_none, hentries]
        intro e he
        cases he
        exact Nat.lt_of_not_le hearly

/-- Waiting for something that is not due before does not change what fires later. -/
theorem afterWait (hab : a ≤ b) (hnone : s.fireNext? a = none) (h : Fires b s row s') :
    ∃ t', Fires b (s.waitUntil a) row t' ∧ t'.waitUntil b = s'.waitUntil b := by
  cases h with
  | done hnone' =>
      refine ⟨s.waitUntil a, .done ?_, s.waitUntil_waitUntil hab⟩
      rw [Stage.fireNext?_eq_none] at hnone' ⊢
      exact hnone'
  | @fire _ _ entry rest row hentries hdue hrest =>
      have hlater : a < entry.due := Stage.fireNext?_eq_none.1 hnone entry (by simp [hentries])
      -- the clock is set to the instant of the entry in either case
      have harrive : ((s.waitUntil a).arrive entry rest).refreshed
          = (s.arrive entry rest).refreshed := by
        have hnow : max (max s.now a) entry.due = max s.now entry.due := by lia
        have hle : max s.now a ≤ max s.now entry.due := by lia
        simp [refreshed, arrive, waitUntil, hnow, PointerSampler.flush_flush _ hle]
      obtain ⟨hmid, hevents⟩ := fire_alike harrive entry.timer
      -- from the first firing on the two stages differ in a look at the pointer at most
      obtain ⟨t', hfires, hlast⟩ := hrest.alike hmid.symm
      refine ⟨t', ?_, ?_⟩
      · rw [← hevents]
        exact .fire hentries hdue hfires
      · rw [← t'.waitUntil_refreshed, ← hlast, s'.waitUntil_refreshed]

theorem exhaustible (h : Fires target s row s') (hs : s.Exhaustible b) : s'.Exhaustible b := by
  induction h with
  | done _ => exact hs
  | fire _ _ _ ih => exact ih (hs.fire _ _)

end Fires

/-! ## One wait or two -/

section Pieces

variable {s : Stage} {a b : Instant}

theorem Exhaustible.mono (h : s.Exhaustible b) (hab : a ≤ b) : s.Exhaustible a :=
  ⟨h.tick_pos, fun hwalking => Nat.lt_of_le_of_lt hab (h.ends hwalking)⟩

/-- The row of a single wait is that of a first piece followed by that of the second. -/
theorem fires_pieces (hab : a ≤ b) (hends : s.Exhaustible b) :
    ∃ early late first last stop, Fires a s early first ∧ Fires b (first.waitUntil a) late stop ∧
      Fires b s (early ++ late) last ∧ stop.waitUntil b = last.waitUntil b ∧
      (first.waitUntil a).Exhaustible b := by
  obtain ⟨⟨last, events⟩, hall⟩ := drain_isSome hends (Nat.le_refl _)
  obtain ⟨row, hrow, -⟩ := (drains_of_drain hall).exists_fires
  obtain ⟨early, late, first, hearly, hlate, rfl⟩ := hrow.split hab
  obtain ⟨stop, hstop, hsame⟩ := hlate.afterWait hab hearly.drains.fireNext?_eq_none
  obtain ⟨htick, hlast⟩ := hearly.exhaustible hends
  exact ⟨early, late, first, last, stop, hearly, hstop, hrow, hsame, htick, hlast⟩

/-- Two waits are one, as long as what is due runs out. -/
theorem advanceTo?_pieces (hab : a ≤ b) (hends : s.Exhaustible (min b lastInstant)) :
    ∃ mid stop early late, s.advanceTo? a = some (mid, early) ∧
      mid.advanceTo? b = some (stop, late) ∧ s.advanceTo? b = some (stop, early ++ late) := by
  have hle : min a lastInstant ≤ min b lastInstant := by lia
  obtain ⟨early, late, first, last, stop, hearly, hlate, hall, hsame, hendsLate⟩ :=
    fires_pieces hle hends
  refine ⟨_, _, _, _, advanceTo?_of_drains (hends.mono hle) hearly.drains,
    advanceTo?_of_drains hendsLate hlate.drains, ?_⟩
  rw [hsame, ← List.flatMap_append]
  exact advanceTo?_of_drains hends hall.drains

/-- The same with the instants of the events. -/
theorem advanceTimed?_pieces (ht : Timely s) (hab : a ≤ b)
    (hends : s.Exhaustible (min b lastInstant)) :
    ∃ mid stop early late, s.advanceTimed? a = some (mid, early) ∧
      mid.advanceTimed? b = some (stop, late) ∧ s.advanceTimed? b = some (stop, early ++ late) := by
  have hle : min a lastInstant ≤ min b lastInstant := by lia
  obtain ⟨early, late, first, last, stop, hearly, hlate, hall, hsame, hendsLate⟩ :=
    fires_pieces hle hends
  have hmid : Timely (first.waitUntil (min a lastInstant)) :=
    (hearly.timely ht).waitUntil hearly.drains.fireNext?_eq_none (Nat.min_le_right _ _)
  refine ⟨_, _, _, _, advanceTimed?_of_fires ht (hends.mono hle) hearly,
    advanceTimed?_of_fires hmid hendsLate hlate, ?_⟩
  rw [hsame, ← List.flatMap_append]
  exact advanceTimed?_of_fires ht hends hall

end Pieces

end Stage

/-- On every stage that can be reached, letting time pass until `a` and then until `b` has the same
    result as letting it pass until `b` at once, and the events of the one are those of the other in a
    row. This is so unless the demo is running and `b` is the last instant, and `a` may be over. -/
theorem Reachable.advance_in_pieces {s : Stage} (h : Reachable s) {a b : Instant} (hab : a ≤ b)
    (hends : b < lastInstant ∨ s.demo.isAnimating = false) :
    ∃ mid stop early late, s.advanceTo? a = some (mid, early) ∧
      mid.advanceTo? b = some (stop, late) ∧ s.advanceTo? b = some (stop, early ++ late) := by
  refine Stage.advanceTo?_pieces hab (h.exhaustible fun hwalking => ?_)
  rcases hends with hlt | hidle
  · exact Nat.lt_of_le_of_lt (Nat.min_le_left _ _) hlt
  · rw [hidle] at hwalking
    cases hwalking

/-- A run of two moves, with a look at the clock between them. -/
theorem advance_in_pieces_of_two_moves :
    let start := Stage.new ⟨[[.trigger .flagClicked, .move 10, .move 10]], none⟩
    let s := (start.dispatch (.trigger .flagClicked)).1
    ∃ mid stop early late, s.advanceTo? 5 = some (mid, early) ∧
      mid.advanceTo? 20 = some (stop, late) ∧ s.advanceTo? 20 = some (stop, early ++ late) := by
  intro start s
  have hstart : Reachable start := .new (Stage.isNew_new _)
  have hreachable : Reachable s := hstart.handle .flagClicked rfl
  exact hreachable.advance_in_pieces (by decide) (Or.inl (by decide))

end SpriteStage

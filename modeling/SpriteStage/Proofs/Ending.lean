import SpriteStage.Proofs.DemoTicks
import SpriteStage.Proofs.Pieces
import SpriteStage.Proofs.Timeliness
set_option autoImplicit false

/-! # When the clock can be advanced

Letting time pass ends on every stage that can be reached, with one exception: at the last instant of
the clock a tick of the demo is followed by another one at the same instant, so a demo that is running
when the last instant is reached ticks there forever. `Reachable.advancing_ends_iff` says of each way
of letting time pass exactly when it has a result.

That there is one follows from `Stage.workUntil`, which every firing before the last instant lowers.
That there is none for any fuel is an invariant: while the cats walk there is a tick in the agenda, and
every entry is due by the last instant, so something more can always fire. -/

namespace SpriteStage

namespace Stage

/-! ## The demo at the last instant -/

/-- The demo is running, and the end of the clock is to be reached. -/
def WalksToTheEnd (s : Stage) (target : Instant) : Prop :=
  s.demo.isAnimating = true ∧ lastInstant ≤ target

/-- While the cats walk something is due by the last instant. -/
theorem fireNext?_of_walking {s : Stage} (ht : Timely s) (hp : Paced s)
    (hwalking : s.demo.isAnimating = true) :
    ∃ entry rest, s.agenda.entries = entry :: rest ∧
      s.fireNext? lastInstant = some ((s.arrive entry rest).fire entry.timer) := by
  obtain ⟨-, hticks⟩ := hp.walking hwalking
  cases hentries : s.agenda.entries with
  | nil => simp [Agenda.demoTicks, Agenda.pick, hentries] at hticks
  | cons entry rest =>
      have hdue := (ht.due entry (hentries ▸ List.mem_cons_self)).2
      exact ⟨entry, rest, rfl, fireNext?_eq_some.2 ⟨entry, rest, hentries, hdue, rfl⟩⟩

/-- No fuel is enough for a running demo at the last instant. -/
theorem drain_eq_none_of_walking {s : Stage} (ht : Timely s) (hp : Paced s)
    (hwalking : s.demo.isAnimating = true) (fuel : Nat) : s.drain lastInstant fuel = none := by
  induction fuel generalizing s with
  | zero =>
      obtain ⟨entry, rest, -, hfire⟩ := fireNext?_of_walking ht hp hwalking
      exact drain_zero hfire
  | succ fuel ih =>
      obtain ⟨entry, rest, hentries, hfire⟩ := fireNext?_of_walking ht hp hwalking
      -- whatever fires, the cats walk on
      have hnext : ((s.arrive entry rest).fire entry.timer).1.drain lastInstant fuel = none := by
        refine ih ((ht.arrive hentries).fire entry.timer) (hp.fire hentries) ?_
        rw [fire_demo_isAnimating]
        exact hwalking
      rw [drain_succ hfire, hnext]
      rfl

end Stage

/-! ## Advancing to an instant -/

namespace Reachable

variable {s : Stage} {target : Instant}

/-- What is due by an instant runs out, unless the demo walks to the end. -/
theorem exhaustible_until (h : Reachable s) (hends : ¬ s.WalksToTheEnd target) :
    s.Exhaustible (min target lastInstant) := by
  refine h.exhaustible fun hwalking => ?_
  refine Nat.lt_of_le_of_lt (Nat.min_le_left _ _) (Nat.lt_of_not_le fun hlast => ?_)
  exact hends ⟨hwalking, hlast⟩

theorem drain_isSome (h : Reachable s) (hends : ¬ s.WalksToTheEnd target) {fuel : Nat}
    (hfuel : s.workUntil (min target lastInstant) ≤ fuel) :
    ∃ result, s.drain (min target lastInstant) fuel = some result :=
  Stage.drain_isSome (h.exhaustible_until hends) hfuel

theorem drain_eq_none (h : Reachable s) (hforever : s.WalksToTheEnd target) (fuel : Nat) :
    s.drain (min target lastInstant) fuel = none := by
  rw [Nat.min_eq_right hforever.2]
  exact Stage.drain_eq_none_of_walking h.timely h.paced hforever.1 fuel

theorem advanceTo?_isSome (h : Reachable s) (hends : ¬ s.WalksToTheEnd target) :
    ∃ result, s.advanceTo? target = some result := by
  obtain ⟨result, hdrain⟩ := h.drain_isSome hends (Nat.le_refl _)
  rw [Stage.advanceTo?_eq, hdrain]
  exact ⟨_, rfl⟩

/-- Until an instant before the last one time can always pass, and then the clock reads it. -/
theorem exists_advanceTo (h : Reachable s) (target : Instant) (hlast : target < lastInstant) :
    ∃ s' events, s.operate? (.advanceTo target) = some (s', .ok events) ∧
      s'.now = max s.now target := by
  obtain ⟨⟨s', events⟩, hadvance⟩ := h.advanceTo?_isSome fun hforever : s.WalksToTheEnd target =>
    absurd hforever.2 (Nat.not_le.2 hlast)
  refine ⟨s', events, by rw [Stage.operate?, hadvance]; rfl, ?_⟩
  rw [Stage.advanceTo?_now hadvance, Nat.min_eq_left (Nat.le_of_lt hlast)]

theorem advanceTo?_eq_none (h : Reachable s) (hforever : s.WalksToTheEnd target) :
    s.advanceTo? target = none := by
  rw [Stage.advanceTo?_eq, h.drain_eq_none hforever]
  rfl

end Reachable

namespace Stage

/-! ## From one due instant to the next -/

section Next

variable {s s' : Stage} {target bound : Instant} {events : List StageEvent}

theorem Drains.isAnimating_eq (h : Drains target s events s') :
    s'.demo.isAnimating = s.demo.isAnimating := by
  induction h with
  | done _ => rfl
  | fire hfire _ ih =>
      obtain ⟨entry, rest, -, -, rfl, -⟩ := exists_of_fireNext? hfire
      rw [ih, fire_demo_isAnimating]
      rfl

theorem advanceTo?_isAnimating (h : s.advanceTo? target = some (s', events)) :
    s'.demo.isAnimating = s.demo.isAnimating := by
  obtain ⟨mid, hdrains, rfl⟩ := advanceTo?_eq_some h
  exact hdrains.isAnimating_eq

theorem Drains.workUntil_le (h : Drains target s events s') (hs : s.Exhaustible target)
    (hbound : target ≤ bound) : s'.workUntil bound ≤ s.workUntil bound := by
  induction h with
  | done _ => exact Nat.le_refl _
  | fire hfire _ ih =>
      obtain ⟨entry, rest, hentries, hdue, rfl, -⟩ := exists_of_fireNext? hfire
      have hless := workUntil_fire_lt hentries (Nat.le_trans hdue hbound) hs.tick_pos
        fun hwalking => Nat.lt_of_le_of_lt hdue (hs.ends hwalking)
      exact Nat.le_trans (ih (hs.fire entry rest)) (Nat.le_of_lt hless)

/-- Advancing to the instant at which the first entry is due leaves less to do. -/
theorem advanceTo?_workUntil_lt {entry : Appointment} {rest : List Appointment}
    (hentries : s.agenda.entries = entry :: rest) (hs : s.Exhaustible entry.due)
    (hlast : entry.due ≤ lastInstant) (hbound : entry.due ≤ bound)
    (h : s.advanceTo? entry.due = some (s', events)) :
    s'.workUntil bound < s.workUntil bound ∧ s'.demo.isAnimating = s.demo.isAnimating := by
  obtain ⟨mid, hdrains, rfl⟩ := advanceTo?_eq_some h
  rw [Nat.min_eq_left hlast] at hdrains
  refine ⟨?_, hdrains.isAnimating_eq⟩
  -- the entry itself fires, and what fires after it adds nothing
  cases hdrains with
  | done hnone =>
      have hlater := fireNext?_eq_none.1 hnone entry (by simp [hentries])
      exact absurd hlater (Nat.lt_irrefl _)
  | fire hfire hrest =>
      obtain ⟨_, _, hentries', -, rfl, -⟩ := exists_of_fireNext? hfire
      obtain ⟨rfl, rfl⟩ := List.cons.inj (hentries.symm.trans hentries')
      have hless := workUntil_fire_lt hentries hbound hs.tick_pos hs.ends
      exact Nat.lt_of_le_of_lt (hrest.workUntil_le (hs.fire entry rest) hbound) hless

end Next

/-! ## Settled stages -/

/-- A tick of the demo is followed by nothing but the next tick, so a settled stage stays so. -/
theorem Drains.isSettled {target : Instant} {s s' : Stage} {events : List StageEvent}
    (h : Drains target s events s') (hsettled : s.isSettled = true) : s'.isSettled = true := by
  induction h with
  | done _ => exact hsettled
  | @fire s _ _ _ _ hfire _ ih =>
      obtain ⟨entry, rest, hentries, -, rfl, -⟩ := exists_of_fireNext? hfire
      rw [isSettled_iff, hentries] at hsettled
      have hrest : ∀ e ∈ rest, e.timer.isDemoTick = true := fun e he =>
        hsettled e (List.mem_cons_of_mem _ he)
      refine ih (isSettled_iff.2 ?_)
      cases htimer : entry.timer with
      | step run index => simpa [htimer, Timer.isDemoTick] using hsettled entry List.mem_cons_self
      | clear cell version =>
          simpa [htimer, Timer.isDemoTick] using hsettled entry List.mem_cons_self
      | demoTick session =>
          rcases (s.arrive entry rest).fireDemoTick_cases session with ⟨-, heq⟩ | ⟨-, -, heq⟩
          · rw [Stage.fire, heq]
            exact hrest
          · rw [Stage.fire, heq]
            intro e he
            rcases Agenda.mem_schedule.1 he with rfl | he
            · rfl
            · exact hrest e he

theorem advanceTo?_isSettled {s s' : Stage} {target : Instant} {events : List StageEvent}
    (h : s.advanceTo? target = some (s', events)) (hsettled : s.isSettled = true) :
    s'.isSettled = true := by
  obtain ⟨mid, hdrains, rfl⟩ := advanceTo?_eq_some h
  exact hdrains.isSettled hsettled

/-- The demo is running, and just before the last instant the stage is not settled yet. -/
def NeverSettles (s : Stage) : Prop :=
  s.demo.isAnimating = true ∧
    ∃ stop events, s.advanceTo? (lastInstant - 1) = some (stop, events) ∧ stop.isSettled = false

theorem not_isSettled_of_neverSettles {s : Stage} (h : s.NeverSettles) : ¬ s.isSettled = true := by
  obtain ⟨-, stop, events, hadvance, hunsettled⟩ := h
  intro hsettled
  rw [advanceTo?_isSettled hadvance hsettled] at hunsettled
  cases hunsettled

/-! ## The loop that settles -/

section Settle

variable {s : Stage} {entry : Appointment} {rest : List Appointment}

theorem exists_entry (hunsettled : ¬ s.isSettled = true) :
    ∃ entry rest, s.agenda.entries = entry :: rest := by
  cases hentries : s.agenda.entries with
  | nil => exact absurd (isSettled_iff.2 (by simp [hentries])) hunsettled
  | cons entry rest => exact ⟨entry, rest, rfl⟩

theorem nextDue?_of_entries (hentries : s.agenda.entries = entry :: rest) :
    s.agenda.nextDue? = some entry.due := by
  simp [Agenda.nextDue?, hentries]

theorem settleWithin_of_isSettled (hsettled : s.isSettled = true) (fuel : Nat) :
    s.settleWithin fuel = some (s, []) := by
  unfold settleWithin
  rw [if_pos hsettled]

theorem settleWithin_zero (hunsettled : ¬ s.isSettled = true)
    (hentries : s.agenda.entries = entry :: rest) : s.settleWithin 0 = none := by
  unfold settleWithin
  rw [if_neg hunsettled, nextDue?_of_entries hentries]

theorem settleWithin_succ (hunsettled : ¬ s.isSettled = true)
    (hentries : s.agenda.entries = entry :: rest) (fuel : Nat) :
    s.settleWithin (fuel + 1) = (s.advanceTo? entry.due).bind fun first =>
      (first.1.settleWithin fuel).map fun last => (last.1, first.2 ++ last.2) := by
  rw [settleWithin, if_neg hunsettled, nextDue?_of_entries hentries]
  cases hadvance : s.advanceTo? entry.due with
  | none => simp [hadvance]
  | some first =>
      cases hrest : first.1.settleWithin fuel <;> simp [hadvance, hrest]

end Settle

end Stage

namespace Reachable

variable {s mid : Stage} {entry : Appointment} {rest : List Appointment}
  {events : List StageEvent}

/-- Advancing to the next due instant has a result and leaves less to do, unless the demo is running
    and that is the last instant. -/
theorem advance_next (h : Reachable s) (hentries : s.agenda.entries = entry :: rest)
    (hbefore : s.demo.isAnimating = true → entry.due < lastInstant) {bound : Instant}
    (hbound : entry.due ≤ bound) :
    ∃ mid events, s.advanceTo? entry.due = some (mid, events) ∧ Reachable mid ∧
      mid.workUntil bound < s.workUntil bound ∧
      mid.demo.isAnimating = s.demo.isAnimating := by
  have hends : ¬ s.WalksToTheEnd entry.due := fun ⟨hwalking, hlast⟩ =>
    Nat.not_lt.2 hlast (hbefore hwalking)
  have hlast := (h.timely.due entry (hentries ▸ List.mem_cons_self)).2
  obtain ⟨⟨mid, events⟩, hadvance⟩ := h.advanceTo?_isSome hends
  obtain ⟨hless, hdemo⟩ :=
    Stage.advanceTo?_workUntil_lt hentries (h.exhaustible hbefore) hlast hbound hadvance
  exact ⟨mid, events, hadvance, h.advanceTo hadvance, hless, hdemo⟩

/-- An unsettled stage with nothing due before the last instant. -/
theorem neverSettles_of_last (h : Reachable s) (hentries : s.agenda.entries = entry :: rest)
    (hlast : entry.due = lastInstant) (hunsettled : ¬ s.isSettled = true)
    (hwalking : s.demo.isAnimating = true) : s.NeverSettles := by
  have hbefore : ¬ s.WalksToTheEnd (lastInstant - 1) := fun hforever =>
    absurd hforever.2 (by decide)
  obtain ⟨⟨stop, events⟩, hadvance⟩ := h.advanceTo?_isSome hbefore
  refine ⟨hwalking, stop, events, hadvance, ?_⟩
  obtain ⟨mid, hdrains, rfl⟩ := Stage.advanceTo?_eq_some hadvance
  -- before the last instant nothing fires, so the stage stays as it is
  have hnone : s.fireNext? (min (lastInstant - 1) lastInstant) = none := by
    rw [Stage.fireNext?_eq_none, hentries]
    intro e he
    cases he
    rw [hlast]
    decide
  cases hdrains with
  | done _ => exact Bool.not_eq_true _ ▸ hunsettled
  | fire hfire _ =>
      rw [hnone] at hfire
      cases hfire

/-- Whether a stage ever settles does not change when it is advanced to the next due instant. -/
theorem neverSettles_iff (h : Reachable s)
    (hbefore : s.demo.isAnimating = true → entry.due < lastInstant)
    (hadvance : s.advanceTo? entry.due = some (mid, events))
    (hdemo : mid.demo.isAnimating = s.demo.isAnimating) : mid.NeverSettles ↔ s.NeverSettles := by
  unfold Stage.NeverSettles
  rw [hdemo]
  refine and_congr_right fun hwalking => ?_
  -- advancing until just before the end can be done in two pieces, with the entry between them
  have hle : entry.due ≤ lastInstant - 1 := Nat.le_sub_one_of_lt (hbefore hwalking)
  obtain ⟨_, stop, _, late, hearly, hlate, hall⟩ :=
    Stage.advanceTo?_pieces hle (h.exhaustible fun _ => by decide)
  obtain ⟨rfl, rfl⟩ := Prod.mk.inj (Option.some.inj (hadvance.symm.trans hearly))
  constructor
  · rintro ⟨last, _, hlast, hunsettled⟩
    obtain ⟨rfl, -⟩ := Prod.mk.inj (Option.some.inj (hlate.symm.trans hlast))
    exact ⟨stop, _, hall, hunsettled⟩
  · rintro ⟨last, _, hlast, hunsettled⟩
    obtain ⟨rfl, -⟩ := Prod.mk.inj (Option.some.inj (hall.symm.trans hlast))
    exact ⟨stop, _, hlate, hunsettled⟩

/-! ## Settling -/

/-- Before a stage settles nothing it waits for is due at the last instant of a running demo. -/
theorem due_lt_of_not_neverSettles (h : Reachable s) (hends : ¬ s.NeverSettles)
    (hunsettled : ¬ s.isSettled = true) (hentries : s.agenda.entries = entry :: rest)
    (hwalking : s.demo.isAnimating = true) : entry.due < lastInstant := by
  have hlast := (h.timely.due entry (hentries ▸ List.mem_cons_self)).2
  refine Nat.lt_of_le_of_ne hlast fun heq => ?_
  exact hends (h.neverSettles_of_last hentries heq hunsettled hwalking)

theorem settleWithin_isSome (h : Reachable s) (hends : ¬ s.NeverSettles) {fuel : Nat}
    (hfuel : s.workUntil lastInstant ≤ fuel) : ∃ result, s.settleWithin fuel = some result := by
  induction fuel generalizing s with
  | zero =>
      by_cases hsettled : s.isSettled = true
      · exact ⟨_, Stage.settleWithin_of_isSettled hsettled 0⟩
      · obtain ⟨entry, rest, hentries⟩ := Stage.exists_entry hsettled
        have hlast := (h.timely.due entry (hentries ▸ List.mem_cons_self)).2
        have hbefore := h.due_lt_of_not_neverSettles hends hsettled hentries
        obtain ⟨mid, events, -, -, hless, -⟩ := h.advance_next hentries hbefore hlast
        omega
  | succ fuel ih =>
      by_cases hsettled : s.isSettled = true
      · exact ⟨_, Stage.settleWithin_of_isSettled hsettled _⟩
      · obtain ⟨entry, rest, hentries⟩ := Stage.exists_entry hsettled
        have hlast := (h.timely.due entry (hentries ▸ List.mem_cons_self)).2
        have hbefore := h.due_lt_of_not_neverSettles hends hsettled hentries
        obtain ⟨mid, events, hadvance, hmid, hless, hdemo⟩ :=
          h.advance_next hentries hbefore hlast
        have hendsMid : ¬ mid.NeverSettles := by
          rwa [h.neverSettles_iff hbefore hadvance hdemo]
        obtain ⟨last, hrest⟩ := ih hmid hendsMid (by omega)
        rw [Stage.settleWithin_succ hsettled hentries, hadvance]
        simp [hrest]

theorem settleWithin_eq_none (h : Reachable s) (hforever : s.NeverSettles) (fuel : Nat) :
    s.settleWithin fuel = none := by
  induction fuel generalizing s with
  | zero =>
      have hunsettled := Stage.not_isSettled_of_neverSettles hforever
      obtain ⟨entry, rest, hentries⟩ := Stage.exists_entry hunsettled
      exact Stage.settleWithin_zero hunsettled hentries
  | succ fuel ih =>
      have hunsettled := Stage.not_isSettled_of_neverSettles hforever
      obtain ⟨entry, rest, hentries⟩ := Stage.exists_entry hunsettled
      rw [Stage.settleWithin_succ hunsettled hentries]
      by_cases hbefore : entry.due < lastInstant
      · obtain ⟨mid, events, hadvance, hmid, -, hdemo⟩ :=
          h.advance_next hentries (fun _ => hbefore) (Nat.le_refl _)
        have hforeverMid : mid.NeverSettles :=
          (h.neverSettles_iff (fun _ => hbefore) hadvance hdemo).2 hforever
        simp [hadvance, ih hmid hforeverMid]
      · -- nothing is due before the last instant, and advancing there has no result
        have hnone := h.advanceTo?_eq_none ⟨hforever.1, Nat.le_of_not_lt hbefore⟩
        simp [hnone]

end Reachable

/-! ## The player -/

namespace Player

section Advance

variable {p : Player} {target : Instant} {entry : Appointment} {rest : List Appointment}

theorem jump?_eq (p : Player) (target : Instant) :
    p.jump? target = (p.stage.advanceTo? target).map fun result =>
      ({ p with stage := result.1 } : Player).record result.2 := by
  unfold jump?
  cases p.stage.advanceTo? target <;> rfl

theorem advanceWithin_of_fireNext?_eq_none (hnone : p.stage.fireNext? target = none) (fuel : Nat) :
    p.advanceWithin target fuel = p.jump? target := by
  rw [Stage.fireNext?_eq_none] at hnone
  unfold advanceWithin Agenda.nextDue?
  cases hentries : p.stage.agenda.entries with
  | nil => rfl
  | cons entry rest =>
      have hlater : target < entry.due := hnone entry (by simp [hentries])
      simp [hlater]

theorem advanceWithin_zero (hentries : p.stage.agenda.entries = entry :: rest)
    (hdue : entry.due ≤ target) : p.advanceWithin target 0 = none := by
  unfold advanceWithin
  rw [Stage.nextDue?_of_entries hentries]
  exact if_neg (Nat.not_lt.2 hdue)

theorem advanceWithin_succ (hentries : p.stage.agenda.entries = entry :: rest)
    (hdue : entry.due ≤ target) (fuel : Nat) :
    p.advanceWithin target (fuel + 1) = (p.jump? entry.due).bind (advanceWithin target fuel) := by
  rw [advanceWithin, Stage.nextDue?_of_entries hentries]
  exact if_neg (Nat.not_lt.2 hdue)

theorem jump?_isSome (h : Reachable p.stage) (hends : ¬ p.stage.WalksToTheEnd target) :
    ∃ result, p.jump? target = some result := by
  obtain ⟨result, hadvance⟩ := h.advanceTo?_isSome hends
  rw [jump?_eq, hadvance]
  exact ⟨_, rfl⟩

theorem jump?_eq_none (h : Reachable p.stage) (hforever : p.stage.WalksToTheEnd target) :
    p.jump? target = none := by
  rw [jump?_eq, h.advanceTo?_eq_none hforever]
  rfl

theorem advanceWithin_isSome (h : Reachable p.stage) (hends : ¬ p.stage.WalksToTheEnd target)
    {fuel : Nat} (hfuel : p.stage.workUntil target ≤ fuel) :
    ∃ result, p.advanceWithin target fuel = some result := by
  have hlast : p.stage.demo.isAnimating = true → target < lastInstant := fun hwalking =>
    Nat.lt_of_not_le fun hle => hends ⟨hwalking, hle⟩
  induction fuel generalizing p with
  | zero =>
      cases hfire : p.stage.fireNext? target with
      | none =>
          rw [advanceWithin_of_fireNext?_eq_none hfire]
          exact jump?_isSome h hends
      | some _ =>
          obtain ⟨entry, rest, hentries, hdue, -⟩ := Stage.fireNext?_eq_some.1 hfire
          obtain ⟨mid, events, -, -, hless, -⟩ := h.advance_next hentries
            (fun hwalking => Nat.lt_of_le_of_lt hdue (hlast hwalking)) hdue
          omega
  | succ fuel ih =>
      cases hfire : p.stage.fireNext? target with
      | none =>
          rw [advanceWithin_of_fireNext?_eq_none hfire]
          exact jump?_isSome h hends
      | some _ =>
          obtain ⟨entry, rest, hentries, hdue, -⟩ := Stage.fireNext?_eq_some.1 hfire
          obtain ⟨mid, events, hadvance, hmid, hless, hdemo⟩ := h.advance_next hentries
            (fun hwalking => Nat.lt_of_le_of_lt hdue (hlast hwalking)) hdue
          rw [advanceWithin_succ hentries hdue, jump?_eq, hadvance]
          refine ih hmid ?_ (Nat.le_of_lt_succ (Nat.lt_of_lt_of_le hless hfuel)) ?_
          · exact fun hforever => hends ⟨hdemo ▸ hforever.1, hforever.2⟩
          · exact fun hwalking => hlast (hdemo ▸ hwalking)

theorem advanceWithin_eq_none (h : Reachable p.stage) (hforever : p.stage.WalksToTheEnd target)
    (fuel : Nat) : p.advanceWithin target fuel = none := by
  induction fuel generalizing p with
  | zero =>
      cases hfire : p.stage.fireNext? target with
      | none =>
          rw [advanceWithin_of_fireNext?_eq_none hfire]
          exact jump?_eq_none h hforever
      | some _ =>
          obtain ⟨entry, rest, hentries, hdue, -⟩ := Stage.fireNext?_eq_some.1 hfire
          exact advanceWithin_zero hentries hdue
  | succ fuel ih =>
      cases hfire : p.stage.fireNext? target with
      | none =>
          rw [advanceWithin_of_fireNext?_eq_none hfire]
          exact jump?_eq_none h hforever
      | some _ =>
          obtain ⟨entry, rest, hentries, hdue, -⟩ := Stage.fireNext?_eq_some.1 hfire
          rw [advanceWithin_succ hentries hdue]
          by_cases hbefore : entry.due < lastInstant
          · obtain ⟨mid, events, hadvance, hmid, -, hdemo⟩ :=
              h.advance_next hentries (fun _ => hbefore) (Nat.le_refl _)
            rw [jump?_eq, hadvance]
            exact ih hmid ⟨hdemo ▸ hforever.1, hforever.2⟩
          · -- the next entry is due at the last instant, and the jump there has no result
            rw [jump?_eq_none h ⟨hforever.1, Nat.le_of_not_lt hbefore⟩]
            rfl

end Advance

end Player

/-! ## When letting time pass ends -/

section Ends

variable {α : Type} {forever : Prop}

theorem isSome_iff_not {result : Option α} (hends : ¬ forever → ∃ r, result = some r)
    (hnone : forever → result = none) : result.isSome = true ↔ ¬ forever := by
  constructor
  · intro hsome hforever
    rw [hnone hforever] at hsome
    cases hsome
  · intro hnot
    obtain ⟨r, hr⟩ := hends hnot
    rw [hr]
    rfl

theorem exists_isSome_iff_not {loop : Nat → Option α} {enough : Nat}
    (hends : ¬ forever → ∃ r, loop enough = some r) (hnone : forever → ∀ fuel, loop fuel = none) :
    (∃ fuel, (loop fuel).isSome = true) ↔ ¬ forever := by
  constructor
  · rintro ⟨fuel, hsome⟩ hforever
    rw [hnone hforever fuel] at hsome
    cases hsome
  · intro hnot
    obtain ⟨r, hr⟩ := hends hnot
    exact ⟨enough, by rw [hr]; rfl⟩

end Ends

/-- On a stage that can be reached, firing what is due by an instant comes to an end, and with it
    letting time pass until then, unless the demo is running and the instant is the last one. The
    same is so for a player. Settling comes to an end unless the demo is running and the stage is not
    settled just before the last instant. -/
theorem Reachable.advancing_ends_iff {s : Stage} (h : Reachable s) (target : Instant) :
    ((∃ fuel, (s.drain (min target lastInstant) fuel).isSome = true) ↔ ¬ s.WalksToTheEnd target) ∧
    ((s.advanceTo? target).isSome = true ↔ ¬ s.WalksToTheEnd target) ∧
    (∀ nanoseconds, (s.tick? nanoseconds).isSome = true ↔
      ¬ s.WalksToTheEnd (s.now + Stage.elapsedMs nanoseconds)) ∧
    ((∃ fuel, (s.settleWithin fuel).isSome = true) ↔ ¬ s.NeverSettles) ∧
    (s.settle?.isSome = true ↔ ¬ s.NeverSettles) ∧
    (∀ events rejected,
      ((∃ fuel, ((⟨s, events, rejected⟩ : Player).advanceWithin target fuel).isSome = true) ↔
        ¬ s.WalksToTheEnd target) ∧
      (((⟨s, events, rejected⟩ : Player).advanceTo? target).isSome = true ↔
        ¬ s.WalksToTheEnd target)) := by
  refine ⟨?_, ?_, fun nanoseconds => ?_, ?_, ?_, fun events rejected => ⟨?_, ?_⟩⟩
  · exact exists_isSome_iff_not (fun hends => h.drain_isSome hends (Nat.le_refl _)) h.drain_eq_none
  · exact isSome_iff_not h.advanceTo?_isSome h.advanceTo?_eq_none
  · have htarget : s.WalksToTheEnd (s.now + Stage.elapsedMs nanoseconds) ↔
        s.WalksToTheEnd (after s.now (Stage.elapsedMs nanoseconds)) := by
      refine and_congr_right fun _ => ?_
      unfold after
      lia
    rw [htarget]
    exact isSome_iff_not h.advanceTo?_isSome h.advanceTo?_eq_none
  · exact exists_isSome_iff_not (fun hends => h.settleWithin_isSome hends (Nat.le_refl _))
      h.settleWithin_eq_none
  · exact isSome_iff_not (fun hends => h.settleWithin_isSome hends (Nat.le_refl _))
      fun hforever => h.settleWithin_eq_none hforever _
  · exact exists_isSome_iff_not
      (fun hends => Player.advanceWithin_isSome h hends (Nat.le_refl _))
      fun hforever fuel => Player.advanceWithin_eq_none h hforever fuel
  · exact isSome_iff_not (fun hends => Player.advanceWithin_isSome h hends (Nat.le_refl _))
      fun hforever => Player.advanceWithin_eq_none h hforever _

/-- A demo that is running can be advanced until just before the last instant, but no further. -/
theorem advancing_ends_before_last_instant :
    let opened := (Stage.new .empty).openDemo.1
    ∃ s events, opened.handle .demoStart = (s, .ok events) ∧
      (s.advanceTo? (lastInstant - 1)).isSome = true ∧
      (s.advanceTo? lastInstant).isSome = false := by
  intro opened
  have hnew : Reachable (Stage.new .empty) := .new (Stage.isNew_new _)
  have hopened : Reachable opened := hnew.handle .demoOpen rfl
  have hstart : opened.handle .demoStart = _ := Stage.startDemo_eq rfl rfl
  have hstarted := hopened.handle .demoStart hstart
  refine ⟨_, _, hstart, ?_, ?_⟩
  · obtain ⟨-, hadvance, -⟩ := hstarted.advancing_ends_iff (lastInstant - 1)
    exact hadvance.2 fun hforever => absurd hforever.2 (by decide)
  · obtain ⟨-, hadvance, -⟩ := hstarted.advancing_ends_iff lastInstant
    rw [← Bool.not_eq_true, hadvance, Classical.not_not]
    exact ⟨rfl, Nat.le_refl _⟩

/-- With ticks as long as the whole clock a demo that was started at once is at the last instant with
    the first of them, and no number of firings brings it to an end. -/
theorem never_ending_demo :
    let opened := (Stage.build .empty { demo := { tickMs := 18446744073709551615 } }).openDemo.1
    ∃ s events, opened.handle .demoStart = (s, .ok events) ∧ Reachable s ∧
      ∀ fuel, s.drain lastInstant fuel = none := by
  intro opened
  have hnew : Reachable (Stage.build .empty { demo := { tickMs := 18446744073709551615 } }) :=
    .new (Stage.isNew_build (by decide) .empty)
  have hopened : Reachable opened := hnew.handle .demoOpen rfl
  have hstart : opened.handle .demoStart = _ := Stage.startDemo_eq rfl rfl
  have hstarted := hopened.handle .demoStart hstart
  exact ⟨_, _, hstart, hstarted,
    Stage.drain_eq_none_of_walking hstarted.timely hstarted.paced rfl⟩

end SpriteStage

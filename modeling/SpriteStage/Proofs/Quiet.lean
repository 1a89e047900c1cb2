import SpriteStage.Proofs.GlideTags
import SpriteStage.Proofs.Interference
set_option autoImplicit false

/-! # The first quiet moment

Settling stops at the first instant at which a wait would leave the stage settled, and it is that
wait: the stage and the events are those of letting time pass until there at once
(`Reachable.settles_at_first_quiet_instant`). Ticks of the demo in between make no difference.

The row of waits in `Stage.Settles` is followed from its end: before the first entry is due every wait
leaves the stage unsettled, and a later wait is one until then with another one behind it. While the
cats stand nothing at all is left on a settled stage, and so nothing runs and no tag is shown. -/

namespace SpriteStage

namespace Stage

/-- A wait that ends before the first entry is due leaves the stage as unsettled as it was. -/
theorem isSettled_of_lt_due {s stop : Stage} {entry : Appointment} {rest : List Appointment}
    {target : Instant} {events : List StageEvent} (hentries : s.agenda.entries = entry :: rest)
    (hlt : target < entry.due) (h : s.advanceTo? target = some (stop, events)) :
    stop.isSettled = s.isSettled := by
  obtain ⟨mid, hdrains, rfl⟩ := advanceTo?_eq_some h
  cases hdrains with
  | done _ => rfl
  | fire hfire _ =>
      obtain ⟨_, _, hentries', hdue, -⟩ := fireNext?_eq_some.1 hfire
      obtain ⟨rfl, -⟩ := List.cons.inj (hentries.symm.trans hentries')
      exact absurd (Nat.le_trans hdue (Nat.min_le_left _ _)) (Nat.not_le.2 hlt)

/-- Settling neither starts nor stops the demo. -/
theorem Settles.isAnimating_eq {s s' : Stage} {events : List StageEvent}
    (h : Settles s events s') : s'.demo.isAnimating = s.demo.isAnimating := by
  induction h with
  | settled _ => rfl
  | advance _ _ hadvance _ ih => rw [ih, advanceTo?_isAnimating hadvance]

/-- The stage can be brought to `stop` by a wait until the instant that its clock reads then, and
    every shorter wait leaves it unsettled. -/
structure QuietAt (s stop : Stage) (events : List StageEvent) : Prop where
  advance : s.advanceTo? stop.now = some (stop, events)
  before : ∀ target < stop.now, ∃ early told,
    s.advanceTo? target = some (early, told) ∧ early.isSettled = false

end Stage

namespace Reachable

variable {s s' : Stage} {events : List StageEvent}

/-- Two waits that have an end are one. -/
theorem advanceTo?_trans {mid : Stage} {a b : Instant} {later : List StageEvent} (h : Reachable s)
    (hab : a ≤ b) (hfirst : s.advanceTo? a = some (mid, events))
    (hsecond : mid.advanceTo? b = some (s', later)) :
    s.advanceTo? b = some (s', events ++ later) := by
  -- the demo does not tick at the last instant, or the second wait would go on forever
  have hends : ¬ s.WalksToTheEnd b := by
    rintro ⟨hwalking, hlast⟩
    rw [← Stage.advanceTo?_isAnimating hfirst] at hwalking
    rw [(h.advanceTo hfirst).advanceTo?_eq_none ⟨hwalking, hlast⟩] at hsecond
    cases hsecond
  obtain ⟨_, _, _, _, hfirst', hsecond', hall⟩ :=
    Stage.advanceTo?_pieces hab (h.exhaustible_until hends)
  obtain ⟨rfl, rfl⟩ := Prod.mk.inj (Option.some.inj (hfirst.symm.trans hfirst'))
  obtain ⟨rfl, rfl⟩ := Prod.mk.inj (Option.some.inj (hsecond.symm.trans hsecond'))
  exact hall

/-- Before the first entry is due no wait settles a stage. -/
theorem unsettled_before_due {entry : Appointment} {rest : List Appointment} (h : Reachable s)
    (hunsettled : ¬ s.isSettled = true) (hentries : s.agenda.entries = entry :: rest)
    {target : Instant} (hlt : target < entry.due) : ∃ early told,
      s.advanceTo? target = some (early, told) ∧ early.isSettled = false := by
  have hlast := (h.timely.due entry (hentries ▸ List.mem_cons_self)).2
  obtain ⟨⟨early, told⟩, hwait⟩ := h.advanceTo?_isSome fun hforever : s.WalksToTheEnd target =>
    absurd (Nat.le_trans hlast hforever.2) (Nat.not_le.2 hlt)
  refine ⟨early, told, hwait, ?_⟩
  rw [Stage.isSettled_of_lt_due hentries hlt hwait]
  exact Bool.not_eq_true _ ▸ hunsettled

/-- A stage that is not settled yet settles at its first quiet moment. -/
theorem quietAt_of_settles (h : Reachable s) (hsettles : s.Settles events s') :
    s = s' ∧ events = [] ∨ s.QuietAt s' events := by
  induction hsettles with
  | settled _ => exact Or.inl ⟨rfl, rfl⟩
  | @advance s mid s' entry rest events later hunsettled hentries hadvance _ ih =>
      obtain ⟨hnow, hlast⟩ := h.timely.due entry (hentries ▸ List.mem_cons_self)
      have hclock : mid.now = entry.due := by
        rw [Stage.advanceTo?_now hadvance, Nat.min_eq_left hlast, Nat.max_eq_right hnow]
      refine Or.inr ?_
      rcases ih (h.advanceTo hadvance) with ⟨rfl, rfl⟩ | ⟨hrest, hbefore⟩
      · -- the first entry was all that there was to wait for
        rw [List.append_nil]
        refine ⟨by rwa [hclock], fun target htarget => ?_⟩
        exact h.unsettled_before_due hunsettled hentries (by rwa [hclock] at htarget)
      · have hle : entry.due ≤ s'.now := by
          rw [← hclock, Stage.advanceTo?_now hrest]
          exact Nat.le_max_left _ _
        refine ⟨h.advanceTo?_trans hle hadvance hrest, fun target htarget => ?_⟩
        rcases Nat.lt_or_ge target entry.due with hlt | hdue
        · exact h.unsettled_before_due hunsettled hentries hlt
        · obtain ⟨early, told, hwait, hnot⟩ := hbefore target htarget
          exact ⟨early, _, h.advanceTo?_trans hdue hadvance hwait, hnot⟩

/-- On a stage without a timer nothing runs and no tag is shown. -/
theorem rests_of_entries_eq_nil (h : Reachable s) (hentries : s.agenda.entries = []) :
    s.isPlaying = false ∧ s.sprite.glide.value = none := by
  obtain ⟨config, log, plans, hexecution⟩ := h.execution
  obtain ⟨row, hc⟩ := hexecution.exists_chronicle
  constructor
  · rw [← Bool.not_eq_true, h.continued.isPlaying_iff, hentries]
    rintro ⟨e, he, -⟩
    cases he
  · rw [← Option.not_isSome_iff_eq_none, hc.tag_iff, hentries]
    rintro ⟨e, he, -⟩
    cases he

/-- While the cats stand nothing is left in the agenda of a settled stage. -/
theorem entries_eq_nil_of_isSettled (h : Reachable s) (hidle : s.demo.isAnimating = false)
    (hsettled : s.isSettled = true) : s.agenda.entries = [] := by
  rw [List.eq_nil_iff_forall_not_mem]
  intro e he
  have htick := Stage.isSettled_iff.1 hsettled e he
  rw [Stage.not_isDemoTick_of_idle h.paced hidle e he] at htick
  cases htick

/-- Every stage that can be reached and whose demo is not running settles, and then its agenda is
    empty, nothing runs and no tag is shown. Whenever a stage settles, with a running demo or without
    one, it is settled afterwards. If it was settled before, it is unchanged and nothing is told.
    Otherwise its clock stops at the first instant until which time has to pass: letting time pass
    until then at once leads to the same stage with the same events, and letting it pass until any
    earlier instant leaves the stage unsettled. -/
theorem settles_at_first_quiet_instant (h : Reachable s) :
    (s.demo.isAnimating = false →
      ∃ s' events, s.settle? = some (s', events) ∧ s'.agenda.entries = [] ∧
        s'.isPlaying = false ∧ s'.sprite.glide.value = none) ∧
    ∀ s' events, s.settle? = some (s', events) →
      s'.isSettled = true ∧
      (s.isSettled = true → s' = s ∧ events = []) ∧
      (s.isSettled = false → s.QuietAt s' events) := by
  refine ⟨fun hidle => ?_, fun s' events hsettle => ?_⟩
  · have hends : ¬ s.NeverSettles := by
      rintro ⟨hwalking, -⟩
      rw [hidle] at hwalking
      cases hwalking
    obtain ⟨⟨s', events⟩, hsettle⟩ := h.settleWithin_isSome hends (Nat.le_refl _)
    have hsettles := Stage.settles_of_settleWithin hsettle
    have hop : s.operate? .settle = some (s', .ok events) := by
      rw [Stage.operate?, Stage.settle?, hsettle]
      rfl
    have hs' : Reachable s' := h.operate hop
    have hentries := hs'.entries_eq_nil_of_isSettled (hsettles.isAnimating_eq.trans hidle)
      hsettles.isSettled
    exact ⟨s', events, hsettle, hentries, hs'.rests_of_entries_eq_nil hentries⟩
  · have hsettles := Stage.settles_of_settleWithin hsettle
    refine ⟨hsettles.isSettled, fun hsettled => ?_, fun hunsettled => ?_⟩
    · obtain ⟨rfl, rfl⟩ := (Stage.Settles.settled hsettled).unique hsettles
      exact ⟨rfl, rfl⟩
    · rcases h.quietAt_of_settles hsettles with ⟨rfl, -⟩ | hquiet
      · rw [hsettles.isSettled] at hunsettled
        cases hunsettled
      · exact hquiet

end Reachable

/-- While the cats walk a run of a move and a glide comes to rest when the tag of the glide goes, and
    two ticks of the demo have fired by then. -/
theorem settles_at_first_quiet_instant_while_walking :
    let start := Stage.new ⟨[[.trigger .flagClicked, .move 10, .glide 5 5 120]], none⟩
    ∃ s records s' events,
      start.operateAll? [.input .demoOpen, .input .demoStart, .input .flagClicked]
        = some (s, records) ∧
      s.demo.isAnimating = true ∧ s.isSettled = false ∧ s.settle? = some (s', events) ∧
      s'.now = 130 ∧ s'.isSettled = true ∧ s.QuietAt s' events := by
  intro start
  have hrun : ((start.operateAll? [.input .demoOpen, .input .demoStart, .input .flagClicked]).bind
      fun last => last.1.settle?.map fun rest =>
        (last.1.demo.isAnimating, last.1.isSettled, rest.1.now)) = some (true, false, 130) := by
    decide +kernel
  obtain ⟨⟨s, records⟩, hops, hsettles⟩ := Option.bind_eq_some_iff.1 hrun
  obtain ⟨⟨s', events⟩, hsettle, hlast⟩ := Option.map_eq_some_iff.1 hsettles
  simp only [Prod.mk.injEq] at hlast
  obtain ⟨hwalking, hunsettled, hnow⟩ := hlast
  have hs : Reachable s := (Reachable.new (Stage.isNew_new _)).operateAll hops
  obtain ⟨-, hall⟩ := hs.settles_at_first_quiet_instant
  obtain ⟨hsettled, -, hquiet⟩ := hall s' events hsettle
  exact ⟨s, records, s', events, hops, hwalking, hunsettled, hsettle, hnow, hsettled,
    hquiet hunsettled⟩

end SpriteStage

import Mathlib.Algebra.GroupWithZero.Nat
import SpriteStage.Proofs.Ending
set_option autoImplicit false

/-! # Elapsed time, frame by frame

Of the time that a host reports a tick counts the whole milliseconds, and the fraction is not kept. So
frame by frame the clock falls behind by as many milliseconds as the fractions of the frames amount to
(`elapsedMs_sum`), and this is the only difference from a report in one piece
(`Reachable.tickAll?_eq`): time that is reported later makes up for it (`Reachable.frames_fall_behind`). -/

namespace SpriteStage

/-- A wait does not move the clock if it is none, or if the clock is at its end. -/
theorem after_eq_self_iff {now : Instant} (h : now ≤ lastInstant) {ms : Nat} :
    after now ms = now ↔ ms = 0 ∨ now = lastInstant := by
  unfold after
  lia

namespace Stage

/-! ## Frames -/

/-- Let the frames pass one after the other, each of some nanoseconds. -/
def tickAll? (s : Stage) : List Nat → Option (Stage × List StageEvent)
  | [] => some (s, [])
  | frame :: rest => do
    let (mid, early) ← s.tick? frame
    let (stop, late) ← mid.tickAll? rest
    some (stop, early ++ late)

/-- The milliseconds that are counted frame by frame. -/
def countedMs (frames : List Nat) : Nat := (frames.map elapsedMs).sum

/-- The nanoseconds that are left over of each frame. -/
def leftOver (frames : List Nat) : Nat := (frames.map (· % 1000000)).sum

theorem tickAll?_cons {s mid stop : Stage} {frame : Nat} {rest : List Nat}
    {early late : List StageEvent} (hfirst : s.tick? frame = some (mid, early))
    (hrest : mid.tickAll? rest = some (stop, late)) :
    s.tickAll? (frame :: rest) = some (stop, early ++ late) := by
  simp only [tickAll?, hfirst, hrest, Option.bind_eq_bind, Option.bind_some]

theorem exists_of_tickAll?_cons {s stop : Stage} {frame : Nat} {rest : List Nat}
    {events : List StageEvent} (h : s.tickAll? (frame :: rest) = some (stop, events)) :
    ∃ mid early late, s.tick? frame = some (mid, early) ∧ mid.tickAll? rest = some (stop, late) ∧
      events = early ++ late := by
  simp only [tickAll?, Option.bind_eq_bind, Option.bind_eq_some_iff, Prod.exists] at h
  obtain ⟨mid, early, hfirst, stop, late, hrest, heq⟩ := h
  cases heq
  exact ⟨mid, early, late, hfirst, hrest, rfl⟩

theorem tickAll?_singleton (s : Stage) (frame : Nat) : s.tickAll? [frame] = s.tick? frame := by
  cases hfirst : s.tick? frame with
  | none => simp only [tickAll?, hfirst, Option.bind_eq_bind, Option.bind_none]
  | some result =>
      rw [tickAll?_cons hfirst rfl, List.append_nil]

theorem sum_eq_counted_add_leftOver (frames : List Nat) :
    frames.sum = 1000000 * countedMs frames + leftOver frames := by
  induction frames with
  | nil => rfl
  | cons frame rest ih =>
      have hframe := Nat.div_add_mod frame 1000000
      simp only [countedMs, leftOver, elapsedMs, List.map_cons, List.sum_cons] at ih ⊢
      omega

/-- In one piece the left over nanoseconds count as well, as far as they are whole milliseconds. -/
theorem elapsedMs_sum (frames : List Nat) :
    elapsedMs frames.sum = countedMs frames + leftOver frames / 1000000 := by
  have hsum := sum_eq_counted_add_leftOver frames
  unfold elapsedMs
  omega

theorem advanceTo?_after_now {s mid : Stage} {events : List StageEvent} {ms : Nat}
    (hlast : s.now ≤ lastInstant) (h : s.advanceTo? (after s.now ms) = some (mid, events)) :
    mid.now = after s.now ms := by
  have hle := le_after hlast ms
  have hnow := advanceTo?_now h
  have hend := after_le_last s.now ms
  lia

end Stage

namespace Reachable

variable {s : Stage} {a b : Nat}

/-- Some milliseconds and then some more are as many as both, and the events of the one are those of
    the other in a row. -/
theorem advanceTo?_add (h : Reachable s) (hends : ¬ s.WalksToTheEnd (s.now + (a + b))) :
    ∃ mid stop early late, s.advanceTo? (after s.now a) = some (mid, early) ∧
      mid.advanceTo? (after mid.now b) = some (stop, late) ∧ Reachable mid ∧
      mid.now = after s.now a ∧ ¬ mid.WalksToTheEnd (mid.now + b) ∧
      s.advanceTo? (after s.now (a + b)) = some (stop, early ++ late) := by
  have hle : after s.now a ≤ after s.now (a + b) := by
    unfold after
    lia
  have hexhaustible : s.Exhaustible (min (after s.now (a + b)) lastInstant) := by
    refine h.exhaustible_until fun hforever => hends ⟨hforever.1, ?_⟩
    exact Nat.le_trans hforever.2 (Nat.min_le_left _ _)
  obtain ⟨mid, stop, early, late, hfirst, hsecond, hboth⟩ :=
    Stage.advanceTo?_pieces hle hexhaustible
  have hnow := Stage.advanceTo?_after_now h.timely.now_le hfirst
  refine ⟨mid, stop, early, late, hfirst, ?_, h.advanceTo hfirst, hnow, ?_, hboth⟩
  · rwa [hnow, after_after]
  · rintro ⟨hwalking, hlast⟩
    refine hends ⟨(Stage.advanceTo?_isAnimating hfirst).symm.trans hwalking, ?_⟩
    rw [hnow] at hlast
    unfold after at hlast
    lia

/-- Frame by frame is like waiting once for all the milliseconds that are counted. -/
theorem tickAll?_eq (h : Reachable s) {frames : List Nat} (hframes : frames ≠ [])
    (hends : ¬ s.WalksToTheEnd (s.now + Stage.countedMs frames)) :
    s.tickAll? frames = s.advanceTo? (after s.now (Stage.countedMs frames)) := by
  induction frames generalizing s with
  | nil => exact absurd rfl hframes
  | cons frame rest ih =>
      by_cases hrest : rest = []
      · rw [hrest, Stage.tickAll?_singleton]
        rfl
      · obtain ⟨mid, stop, early, late, hfirst, hsecond, hmid, -, hmidEnds, hboth⟩ :=
          h.advanceTo?_add (a := Stage.elapsedMs frame) (b := Stage.countedMs rest) hends
        have hlater : mid.tickAll? rest = some (stop, late) := by
          rw [ih hmid hrest hmidEnds, hsecond]
        rw [Stage.tickAll?_cons hfirst hlater]
        exact hboth.symm

/-- Frame by frame the clock is behind the report in one piece by what is left over of the frames.
    When this is waited for as well, the stages are the same, and so are the events in a row. -/
theorem frames_fall_behind (h : Reachable s) {frames : List Nat} (hframes : frames ≠ [])
    (hends : ¬ s.WalksToTheEnd (s.now + Stage.elapsedMs frames.sum)) :
    ∃ stop whole events later, s.tickAll? frames = some (stop, events) ∧
      s.tick? frames.sum = some (whole, events ++ later) ∧
      stop.now = after s.now (Stage.countedMs frames) ∧
      stop.advanceTo? (after stop.now (Stage.leftOver frames / 1000000)) = some (whole, later) ∧
      whole.now = after stop.now (Stage.leftOver frames / 1000000) ∧
      ((stop, events) = (whole, events ++ later) ↔
        Stage.leftOver frames < 1000000 ∨ stop.now = lastInstant) := by
  have hcounted := Stage.elapsedMs_sum frames
  rw [hcounted] at hends
  obtain ⟨stop, whole, events, later, hfirst, hsecond, hstop, hnow, -, hboth⟩ := h.advanceTo?_add hends
  have hsooner : ¬ s.WalksToTheEnd (s.now + Stage.countedMs frames) := by
    rintro ⟨hwalking, hlast⟩
    exact hends ⟨hwalking, by lia⟩
  have hlater : whole.now = after stop.now (Stage.leftOver frames / 1000000) :=
    Stage.advanceTo?_after_now hstop.timely.now_le hsecond
  refine ⟨stop, whole, events, later, ?_, ?_, hnow, hsecond, hlater, ?_⟩
  · rw [h.tickAll?_eq hframes hsooner, hfirst]
  · rw [Stage.tick?, hcounted, hboth]
  · have hfew : Stage.leftOver frames < 1000000 ↔ Stage.leftOver frames / 1000000 = 0 := by omega
    -- the stages are the same if the clocks are
    rw [hfew, ← after_eq_self_iff hstop.timely.now_le, ← hlater]
    constructor
    · intro hsame
      rw [(Prod.mk.inj hsame).1]
    · intro hsame
      have htarget : after s.now (Stage.countedMs frames)
          = after s.now (Stage.countedMs frames + Stage.leftOver frames / 1000000) := by
        rw [← after_after, ← hnow, ← hlater, hsame]
      rw [htarget, hboth] at hfirst
      exact (Option.some.inj hfirst).symm

/-- Two ticks are one if the fractions of a millisecond in them are less than a millisecond together,
    or if the clock is at its end after them, and only then. Otherwise the two are a millisecond
    behind, and one more tick of a millisecond makes up for it. Frame by frame it is the same: what
    the clock is behind is what is left over of the frames, in whole milliseconds. -/
theorem ticks_add_up (h : Reachable s) :
    (∀ d₁ d₂, s.demo.isAnimating = false ∨ s.now + Stage.elapsedMs (d₁ + d₂) < lastInstant →
      ∃ mid stop whole early late later, s.tick? d₁ = some (mid, early) ∧
        mid.tick? d₂ = some (stop, late) ∧
        s.tick? (d₁ + d₂) = some (whole, early ++ late ++ later) ∧
        ((stop, early ++ late) = (whole, early ++ late ++ later) ↔
          d₁ % 1000000 + d₂ % 1000000 < 1000000 ∨ stop.now = lastInstant) ∧
        (1000000 ≤ d₁ % 1000000 + d₂ % 1000000 →
          stop.tick? 1000000 = some (whole, later) ∧ whole.now = after stop.now 1)) ∧
    (∀ frames, frames ≠ [] →
      s.demo.isAnimating = false ∨ s.now + Stage.elapsedMs frames.sum < lastInstant →
      ∃ stop whole events later, s.tickAll? frames = some (stop, events) ∧
        s.tick? frames.sum = some (whole, events ++ later) ∧
        stop.now = after s.now (Stage.countedMs frames) ∧
        whole.now = after stop.now (Stage.leftOver frames / 1000000) ∧
        ((stop, events) = (whole, events ++ later) ↔
          Stage.leftOver frames < 1000000 ∨ stop.now = lastInstant)) := by
  have hends : ∀ {instant}, s.demo.isAnimating = false ∨ instant < lastInstant →
      ¬ s.WalksToTheEnd instant := by
    rintro instant (hidle | hbefore) ⟨hwalking, hlast⟩
    · rw [hidle] at hwalking
      cases hwalking
    · exact absurd hlast (Nat.not_le_of_lt hbefore)
  refine ⟨fun d₁ d₂ hend => ?_, fun frames hframes hend => ?_⟩
  · have hsum : [d₁, d₂].sum = d₁ + d₂ := by simp
    have hfractions : Stage.leftOver [d₁, d₂] = d₁ % 1000000 + d₂ % 1000000 := by
      simp [Stage.leftOver]
    have hboth := h.frames_fall_behind (List.cons_ne_nil d₁ [d₂]) (hends (hsum ▸ hend))
    rw [hsum, hfractions] at hboth
    obtain ⟨stop, whole, events, later, hframes, hwhole, -, hlater, hnow, hsame⟩ := hboth
    obtain ⟨mid, early, late, hfirst, hsecond, rfl⟩ := Stage.exists_of_tickAll?_cons hframes
    rw [Stage.tickAll?_singleton] at hsecond
    refine ⟨mid, stop, whole, early, late, later, hfirst, hsecond, hwhole, hsame, fun hmany => ?_⟩
    have hone : (d₁ % 1000000 + d₂ % 1000000) / 1000000 = 1 := by omega
    rw [hone] at hlater hnow
    exact ⟨hlater, hnow⟩
  · obtain ⟨stop, whole, events, later, hall, hwhole, hstop, -, hlater, hsame⟩ :=
      h.frames_fall_behind hframes (hends hend)
    exact ⟨stop, whole, events, later, hall, hwhole, hstop, hlater, hsame⟩

end Reachable

/-- Two frames of a sixtieth of a second, on a stage on which a run of two moves is under way. -/
theorem ticks_of_two_frames :
    let start := Stage.new ⟨[[.trigger .flagClicked, .move 10, .move 10]], none⟩
    let s := (start.dispatch (.trigger .flagClicked)).1
    Reachable s ∧ s.demo.isAnimating = false ∧ ([16666667, 16666667] : List Nat) ≠ [] ∧
      (∃ mid stop whole early late later, s.tick? 16666667 = some (mid, early) ∧
        mid.tick? 16666667 = some (stop, late) ∧
        s.tick? (16666667 + 16666667) = some (whole, early ++ late ++ later) ∧
        stop.tick? 1000000 = some (whole, later) ∧ whole.now = after stop.now 1) ∧
      ∃ stop events, s.tickAll? [16666667, 16666667] = some (stop, events) ∧ stop.now = 32 := by
  intro start s
  have hstart : Reachable start := .new (Stage.isNew_new _)
  have hreachable : Reachable s := hstart.handle .flagClicked rfl
  have hframes : ([16666667, 16666667] : List Nat) ≠ [] := List.cons_ne_nil _ _
  obtain ⟨htwo, hall⟩ := hreachable.ticks_add_up
  obtain ⟨mid, stop, whole, early, late, later, hfirst, hsecond, hwhole, -, hbehind⟩ :=
    htwo 16666667 16666667 (.inl rfl)
  obtain ⟨hlater, hnow⟩ := hbehind (by decide)
  obtain ⟨stop', -, events, -, hticks, -, hcounted, -⟩ := hall _ hframes (.inl rfl)
  exact ⟨hreachable, rfl, hframes,
    ⟨mid, stop, whole, early, late, later, hfirst, hsecond, hwhole, hlater, hnow⟩,
    stop', events, hticks, hcounted⟩

/-- Two halves of a millisecond are none. -/
theorem half_milliseconds_are_lost :
    let s := Stage.new .empty
    Reachable s ∧ s.demo.isAnimating = false ∧ s.tick? 500000 = some (s, []) ∧
      s.tick? (500000 + 500000) = some ({ s with now := 1 }, []) ∧
      ¬ ∃ mid stop early late, s.tick? 500000 = some (mid, early) ∧
        mid.tick? 500000 = some (stop, late) ∧
        s.tick? (500000 + 500000) = some (stop, early ++ late) := by
  intro s
  have hhalf : s.tick? 500000 = some (s, []) := rfl
  have hwhole : s.tick? (500000 + 500000) = some ({ s with now := 1 }, []) := rfl
  refine ⟨.new (Stage.isNew_new _), rfl, hhalf, hwhole, ?_⟩
  rintro ⟨mid, stop, early, late, hfirst, hsecond, hboth⟩
  obtain ⟨rfl, -⟩ := Prod.mk.inj (Option.some.inj (hhalf.symm.trans hfirst))
  obtain ⟨rfl, -⟩ := Prod.mk.inj (Option.some.inj (hhalf.symm.trans hsecond))
  have hnow := congrArg (fun result => result.map (·.1.now)) (hwhole.symm.trans hboth)
  cases hnow

end SpriteStage

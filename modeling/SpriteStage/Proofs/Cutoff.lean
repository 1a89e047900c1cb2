import SpriteStage.CommandLine.Host
import SpriteStage.Proofs.Clockwork
import SpriteStage.Proofs.Playback
set_option autoImplicit false

/-! # Cutting a play off

A play that is cut off earlier is the beginning of one that is cut off later, or not at all
(`replay_cut_off_earlier`).

The two plays go different ways around the cut: the one stops there, the other steps over it to the
next entry or to the next due instant. As time may pass in pieces (`Player.advanceTo?_pieces`), the
other play comes through the player at which the first one stops. Up to there nothing is later than the
cut (`Player.Until`), and what is written down from there on is (`Player.Beyond`). -/

namespace SpriteStage

/-! ## Lists that grow -/

/-- A list has grown by what comes after an instant. -/
def GrowsAfter {α : Type} (instant : α → Instant) (last : Instant) (first second : List α) : Prop :=
  ∃ late, second = first ++ late ∧ ∀ x ∈ late, last < instant x

namespace GrowsAfter

variable {α : Type} {instant : α → Instant} {last : Instant} {first second third : List α}

theorem refl (first : List α) : GrowsAfter instant last first first :=
  ⟨[], (List.append_nil _).symm, nofun⟩

theorem trans (h : GrowsAfter instant last first second) (h' : GrowsAfter instant last second third) :
    GrowsAfter instant last first third := by
  obtain ⟨late, rfl, hlate⟩ := h
  obtain ⟨later, rfl, hlater⟩ := h'
  refine ⟨late ++ later, List.append_assoc _ _ _, fun x hx => ?_⟩
  exact (List.mem_append.1 hx).elim (hlate x) (hlater x)

theorem isPrefix (h : GrowsAfter instant last first second) : first <+: second := by
  obtain ⟨late, rfl, -⟩ := h
  exact List.prefix_append _ _

/-- What comes until the instant is what there was before. -/
theorem eq_filter (h : GrowsAfter instant last first second) (hfirst : ∀ x ∈ first, instant x ≤ last) :
    first = second.filter fun x => decide (instant x ≤ last) := by
  obtain ⟨late, rfl, hlate⟩ := h
  have hall : first.filter (fun x => decide (instant x ≤ last)) = first :=
    List.filter_eq_self.2 fun x hx => by simpa using hfirst x hx
  have hnone : late.filter (fun x => decide (instant x ≤ last)) = [] :=
    List.filter_eq_nil_iff.2 fun x hx => by simpa using hlate x hx
  rw [List.filter_append, hall, hnone, List.append_nil]

/-- A list with nothing after the instant has not grown. -/
theorem eq_of_le (h : GrowsAfter instant last first second)
    (hsecond : ∀ x ∈ second, instant x ≤ last) : second = first := by
  rw [h.eq_filter fun x hx => hsecond x (h.isPrefix.subset hx)]
  exact (List.filter_eq_self.2 fun x hx => by simpa using hsecond x hx).symm

end GrowsAfter

/-! ## Timelines in order -/

/-- The entries of a timeline in order that come later than an instant stand behind the others. -/
theorem growsAfter_of_sorted {entries : List TimelineEntry}
    (hsorted : entries.Pairwise fun a b => a.instant ≤ b.instant) (last : Instant) :
    GrowsAfter TimelineEntry.instant last
      (entries.filter fun e => decide (e.instant ≤ last)) entries := by
  induction entries with
  | nil => exact .refl []
  | cons first rest ih =>
      obtain ⟨hfirst, hrest⟩ := List.pairwise_cons.1 hsorted
      by_cases hearly : first.instant ≤ last
      · obtain ⟨later, heq, hlater⟩ := ih hrest
        refine ⟨later, ?_, hlater⟩
        rw [List.filter_cons_of_pos (by simpa using hearly), List.cons_append, ← heq]
      · have hlate : ∀ e ∈ first :: rest, last < e.instant := by
          intro e he
          rcases List.mem_cons.1 he with rfl | he
          · exact Nat.lt_of_not_le hearly
          · exact Nat.lt_of_lt_of_le (Nat.lt_of_not_le hearly) (hfirst e he)
        have hnone : (first :: rest).filter (fun e => decide (e.instant ≤ last)) = [] :=
          List.filter_eq_nil_iff.2 fun e he => by simpa using hlate e he
        exact ⟨first :: rest, by rw [hnone, List.nil_append], hlate⟩

namespace Player

section Entries

variable {kept later : List TimelineEntry} {cutoff : Option Instant} {last : Instant}

/-- What comes before the end is played. -/
theorem entriesUntil_append (hkept : ∀ e ∈ kept, e.instant ≤ last)
    (hcutoff : ∀ x, cutoff = some x → last ≤ x) :
    entriesUntil cutoff (kept ++ later) = kept ++ entriesUntil cutoff later := by
  refine List.takeWhile_append_of_pos fun e he => ?_
  cases cutoff with
  | none => rfl
  | some x => simpa using Nat.le_trans (hkept e he) (hcutoff x rfl)

/-- What comes later is not. -/
theorem entriesUntil_of_later (hlater : ∀ e ∈ later, last < e.instant) :
    entriesUntil (some last) later = [] := by
  cases later with
  | nil => rfl
  | cons e rest =>
      have hlate := hlater e List.mem_cons_self
      simp [entriesUntil, hlate]

theorem mem_of_mem_entriesUntil {e : TimelineEntry} (he : e ∈ entriesUntil cutoff later) : e ∈ later :=
  (List.takeWhile_sublist _).subset he

end Entries

/-! ## One play after the other -/

/-- Let time pass until the end, or, if there is none, until the stage is settled. -/
def end? (p : Player) : Option Instant → Option Player
  | some last => p.advanceTo? (max last p.stage.now)
  | none => p.settle?

theorem play?_eq (p : Player) (entries : List TimelineEntry) (cutoff : Option Instant) :
    p.play? entries cutoff
      = (p.playEntries? (entriesUntil cutoff entries)).bind fun p => p.end? cutoff := by
  cases cutoff <;> rfl

theorem playEntries?_append (p : Player) (entries later : List TimelineEntry) :
    p.playEntries? (entries ++ later)
      = (p.playEntries? entries).bind fun p => p.playEntries? later := by
  induction entries generalizing p with
  | nil => rfl
  | cons entry rest ih =>
      rw [List.cons_append, playEntries?, playEntries?]
      simp only [Option.bind_eq_bind, Option.bind_assoc, ih]

section Pieces

variable {p mid : Player} {a b : Instant}

theorem reachable_of_advanceTo? (h : Reachable p.stage) (hmid : p.advanceTo? a = some mid) :
    Reachable mid.stage := ((Follows.advanceTo? h a).exists_inOrder hmid).1

theorem exists_of_advanceTo? (h : Reachable p.stage) (hmid : p.advanceTo? a = some mid) :
    ∃ s log, p.stage.advanceTimed? a = some (s, log) ∧ mid = p.follow (s, log) := by
  rw [advanceTo?_eq h, Option.map_eq_some_iff] at hmid
  obtain ⟨⟨s, log⟩, htimed, rfl⟩ := hmid
  exact ⟨s, log, htimed, rfl⟩

/-- The player is at the instant, unless that is over or the clock has ended. -/
theorem advanceTo?_now (h : Reachable p.stage) (hmid : p.advanceTo? a = some mid) :
    mid.stage.now = max p.stage.now (min a lastInstant) := by
  obtain ⟨s, log, htimed, rfl⟩ := exists_of_advanceTo? h hmid
  exact Stage.advanceTo?_now (Stage.advanceTo?_of_timed htimed)

/-- A player may stop on the way. -/
theorem advanceTo?_pieces (h : Reachable p.stage) (hab : a ≤ b)
    (hmid : p.advanceTo? a = some mid) : mid.advanceTo? b = p.advanceTo? b := by
  have hreach := reachable_of_advanceTo? h hmid
  obtain ⟨s, log, htimed, rfl⟩ := exists_of_advanceTo? h hmid
  have hwalking : s.demo.isAnimating = p.stage.demo.isAnimating :=
    Stage.advanceTo?_isAnimating (Stage.advanceTo?_of_timed htimed)
  by_cases hends : p.stage.WalksToTheEnd b
  · have hends' : s.WalksToTheEnd b := ⟨hwalking.trans hends.1, hends.2⟩
    exact (advanceWithin_eq_none hreach hends' _).trans (advanceWithin_eq_none h hends _).symm
  · obtain ⟨_, stop, early, late, hearly, hlate, hall⟩ :=
      Stage.advanceTimed?_pieces h.timely hab (h.exhaustible_until hends)
    obtain ⟨rfl, rfl⟩ := Prod.mk.inj (Option.some.inj (htimed.symm.trans hearly))
    have hstage : (p.follow (s, log)).stage = s := rfl
    rw [advanceTo?_eq hreach, hstage, hlate, advanceTo?_eq h, hall, Option.map_some, Option.map_some,
      follow_follow]

/-- Settling is nothing, or it is letting time pass until the stage is settled. -/
theorem settleWithin_cases (h : Reachable p.stage) {fuel : Nat} {p' : Player}
    (hsettle : p.settleWithin fuel = some p') :
    (p.stage.isSettled = true ∧ p' = p) ∨ p.advanceTo? p'.stage.now = some p' := by
  induction fuel generalizing p with
  | zero =>
      unfold settleWithin at hsettle
      split at hsettle
      · exact Or.inl ⟨‹_›, (Option.some.inj hsettle).symm⟩
      · rename_i hunsettled
        obtain ⟨entry, rest, hentries⟩ := Stage.exists_entry hunsettled
        rw [Stage.nextDue?_of_entries hentries] at hsettle
        cases hsettle
  | succ fuel ih =>
      unfold settleWithin at hsettle
      split at hsettle
      · exact Or.inl ⟨‹_›, (Option.some.inj hsettle).symm⟩
      · rename_i hunsettled
        obtain ⟨entry, rest, hentries⟩ := Stage.exists_entry hunsettled
        have hdue := h.timely.due entry (hentries ▸ List.mem_cons_self)
        rw [Stage.nextDue?_of_entries hentries] at hsettle
        simp only [Option.bind_eq_bind, Option.bind_eq_some_iff] at hsettle
        obtain ⟨mid, hmid, hrest⟩ := hsettle
        have hreach := reachable_of_advanceTo? h hmid
        have hnow : mid.stage.now = entry.due := by
          rw [advanceTo?_now h hmid, Nat.min_eq_left hdue.2, Nat.max_eq_right hdue.1]
        rcases ih hreach hrest with ⟨-, rfl⟩ | hadvance
        · exact Or.inr (hnow ▸ hmid)
        · have hle : entry.due ≤ p'.stage.now := by
            have hlater := advanceTo?_now hreach hadvance
            lia
          exact Or.inr ((advanceTo?_pieces h hle hmid).symm.trans hadvance)

end Pieces

/-! ## Until the cut -/

/-- Nothing has happened after an instant yet. -/
structure Until (last : Instant) (p : Player) : Prop where
  reachable : Reachable p.stage
  now_le : p.stage.now ≤ last
  events_le : ∀ e ∈ p.events, e.instant ≤ last
  rejected_le : ∀ r ∈ p.rejected, r.instant ≤ last

namespace Until

variable {p : Player} {last target : Instant}

/-- What is written down in order is not later than the clock. -/
theorem of_follows {played : Option Player} {plain : Option (Stage × List StageEvent)}
    (h : p.Until last) (hfollows : p.Follows played plain) {p' : Player} (hp' : played = some p')
    (hnow : p'.stage.now ≤ last) (hrejected : ∀ r ∈ p'.rejected, r.instant ≤ last) :
    p'.Until last := by
  obtain ⟨hreach, log, hevents, horder⟩ := hfollows.exists_inOrder hp'
  refine ⟨hreach, hnow, fun e he => ?_, hrejected⟩
  rw [hevents] at he
  rcases List.mem_append.1 he with he | he
  · exact h.events_le e he
  · exact Nat.le_trans (horder.within e he).2 hnow

theorem advanceTo? (h : p.Until last) (hlast : last < lastInstant) (htarget : target ≤ last) :
    ∃ p', p.advanceTo? target = some p' ∧ p'.Until last := by
  have hends : ¬ p.stage.WalksToTheEnd target := fun hforever =>
    absurd hforever.2 (Nat.not_le.2 (Nat.lt_of_le_of_lt htarget hlast))
  obtain ⟨p', hp'⟩ := advanceWithin_isSome h.reachable hends (Nat.le_refl _)
  have hnow := advanceTo?_now h.reachable hp'
  have hle := h.now_le
  refine ⟨p', hp', h.of_follows (.advanceTo? h.reachable target) hp' (by lia) ?_⟩
  obtain ⟨_, _, -, rfl⟩ := exists_of_advanceTo? h.reachable hp'
  exact h.rejected_le

theorem handle (h : p.Until last) {entry : TimelineEntry} (hentry : entry.instant ≤ last) :
    (p.handle entry).Until last := by
  refine h.of_follows (.handle h.reachable entry) rfl ?_ ?_
  · unfold Player.handle
    rcases hhandle : p.stage.handle entry.input with ⟨s', e | events⟩ <;>
      exact Stage.handle_now hhandle ▸ h.now_le
  · unfold Player.handle
    rcases p.stage.handle entry.input with ⟨s', e | events⟩
    · intro r hr
      rcases List.mem_append.1 hr with hr | hr
      · exact h.rejected_le r hr
      · rw [List.mem_singleton.1 hr]
        exact hentry
    · exact h.rejected_le

theorem playEntries? (h : p.Until last) (hlast : last < lastInstant) {entries : List TimelineEntry}
    (hentries : ∀ e ∈ entries, e.instant ≤ last) :
    ∃ p', p.playEntries? entries = some p' ∧ p'.Until last := by
  induction entries generalizing p with
  | nil => exact ⟨p, rfl, h⟩
  | cons entry rest ih =>
      have hentry := hentries entry List.mem_cons_self
      obtain ⟨mid, hmid, huntil⟩ := h.advanceTo? hlast (Nat.max_le.2 ⟨hentry, h.now_le⟩)
      obtain ⟨p', hp', huntil'⟩ :=
        ih (huntil.handle hentry) fun e he => hentries e (List.mem_cons_of_mem _ he)
      refine ⟨p', ?_, huntil'⟩
      rw [Player.playEntries?, playEntry?, hmid]
      exact hp'

end Until

/-! ## Beyond the cut -/

/-- All that one player has written down more than another one happened after an instant. -/
structure Beyond (last : Instant) (p p' : Player) : Prop where
  events : GrowsAfter TimedEvent.instant last p.events p'.events
  rejected : GrowsAfter RejectedInput.instant last p.rejected p'.rejected

namespace Beyond

variable {p mid p' : Player} {last target : Instant}

theorem of_eq (hevents : p'.events = p.events) (hrejected : p'.rejected = p.rejected) :
    Beyond last p p' := ⟨hevents ▸ .refl _, hrejected ▸ .refl _⟩

theorem trans (h : Beyond last p mid) (h' : Beyond last mid p') : Beyond last p p' :=
  ⟨h.events.trans h'.events, h.rejected.trans h'.rejected⟩

/-- While time passes nothing happens before what is due first. -/
theorem of_advanceTo? (h : Reachable p.stage) (hpast : ∀ e ∈ p.stage.agenda.entries, last < e.due)
    (hadvance : p.advanceTo? target = some p') : Beyond last p p' := by
  obtain ⟨s', log, htimed, rfl⟩ := exists_of_advanceTo? h hadvance
  obtain ⟨row, mid, hrow, -, rfl⟩ := Stage.exists_fires_of_advanceTimed? h.timely htimed
  refine ⟨⟨_, rfl, fun e he => ?_⟩, .refl _⟩
  obtain ⟨f, hf, hinstant, -⟩ := exists_of_mem_told he
  rw [hinstant]
  exact hrow.le_due h.timely hpast f hf

theorem of_handle (hnow : last < p.stage.now) {entry : TimelineEntry} (hentry : last < entry.instant) :
    Beyond last p (p.handle entry) := by
  unfold Player.handle
  rcases hhandle : p.stage.handle entry.input with ⟨s', e | events⟩
  · refine ⟨.refl _, _, rfl, fun r hr => ?_⟩
    rw [List.mem_singleton.1 hr]
    exact hentry
  · refine ⟨⟨_, rfl, fun e he => ?_⟩, .refl _⟩
    obtain ⟨event, -, rfl⟩ := List.mem_map.1 he
    exact Stage.handle_now hhandle ▸ hnow

/-- An entry beyond the instant takes the clock beyond it, too. -/
theorem of_playEntry? (h : Reachable p.stage) (hpast : ∀ e ∈ p.stage.agenda.entries, last < e.due)
    (hlast : last < lastInstant) {entry : TimelineEntry} (hentry : last < entry.instant)
    (hplay : p.playEntry? entry = some p') :
    Beyond last p p' ∧ Reachable p'.stage ∧ ∀ e ∈ p'.stage.agenda.entries, last < e.due := by
  obtain ⟨mid, hmid, heq⟩ := Option.bind_eq_some_iff.1 hplay
  obtain rfl := Option.some.inj heq
  have hreach := reachable_of_advanceTo? h hmid
  have hnow : last < mid.stage.now := by
    have hreads := advanceTo?_now h hmid
    lia
  obtain ⟨hreach', log, -, horder⟩ := (Follows.handle hreach entry).exists_inOrder rfl
  refine ⟨(of_advanceTo? h hpast hmid).trans (of_handle hnow hentry), hreach', fun e he => ?_⟩
  exact Nat.lt_of_lt_of_le hnow (Nat.le_trans horder.le (hreach'.timely.due e he).1)

theorem of_playEntries? (h : Reachable p.stage) (hpast : ∀ e ∈ p.stage.agenda.entries, last < e.due)
    (hlast : last < lastInstant) {entries : List TimelineEntry}
    (hentries : ∀ e ∈ entries, last < e.instant) (hplay : p.playEntries? entries = some p') :
    Beyond last p p' ∧ Reachable p'.stage ∧ ∀ e ∈ p'.stage.agenda.entries, last < e.due := by
  induction entries generalizing p with
  | nil =>
      obtain rfl := Option.some.inj hplay
      exact ⟨of_eq rfl rfl, h, hpast⟩
  | cons entry rest ih =>
      obtain ⟨mid, hmid, hrest⟩ := Option.bind_eq_some_iff.1 hplay
      obtain ⟨hbeyond, hreach, hpast'⟩ :=
        of_playEntry? h hpast hlast (hentries entry List.mem_cons_self) hmid
      obtain ⟨hbeyond', hend⟩ :=
        ih hreach hpast' (fun e he => hentries e (List.mem_cons_of_mem _ he)) hrest
      exact ⟨hbeyond.trans hbeyond', hend⟩

theorem of_end? (h : Reachable p.stage) (hpast : ∀ e ∈ p.stage.agenda.entries, last < e.due)
    {cutoff : Option Instant} (hend : p.end? cutoff = some p') : Beyond last p p' := by
  cases cutoff with
  | some x => exact of_advanceTo? h hpast hend
  | none =>
      rcases settleWithin_cases h hend with ⟨-, rfl⟩ | hadvance
      · exact of_eq rfl rfl
      · exact of_advanceTo? h hpast hadvance

/-- What is written down both until the instant and beyond it is nothing. -/
theorem eq_of_until (h : Beyond last p p') (huntil : p'.Until last) :
    p'.events = p.events ∧ p'.rejected = p.rejected :=
  ⟨h.events.eq_of_le huntil.events_le, h.rejected.eq_of_le huntil.rejected_le⟩

end Beyond

/-! ## At the cut -/

section Cut

variable {p stop p' : Player} {last : Instant}

/-- An entry beyond the cut is played in the same way after a stop at the cut. -/
theorem playEntry?_pieces (h : p.Until last) (hstop : p.advanceTo? last = some stop)
    (hnow : stop.stage.now = last) {entry : TimelineEntry} (hentry : last < entry.instant) :
    stop.playEntry? entry = p.playEntry? entry := by
  have hle := h.now_le
  have htarget : max entry.instant p.stage.now = entry.instant := by lia
  have htarget' : max entry.instant stop.stage.now = entry.instant := by lia
  unfold playEntry?
  rw [htarget, htarget', advanceTo?_pieces h.reachable (Nat.le_of_lt hentry) hstop]

/-- A play that goes on beyond the cut comes through the player that stops there. -/
theorem beyond_of_play (h : p.Until last) (hlast : last < lastInstant)
    (hstop : p.advanceTo? last = some stop) (huntil : stop.Until last)
    (hnow : stop.stage.now = last) (hpast : ∀ e ∈ stop.stage.agenda.entries, last < e.due)
    {later : List TimelineEntry} (hlater : ∀ e ∈ later, last < e.instant)
    {cutoff : Option Instant} (hcutoff : ∀ x, cutoff = some x → last ≤ x)
    (hplay : ((p.playEntries? later).bind fun p => p.end? cutoff) = some p')
    (hend : last ≤ p'.stage.now) : Beyond last stop p' := by
  cases later with
  | cons entry rest =>
      -- the next entry is beyond the cut
      have hentry := playEntry?_pieces h hstop hnow (hlater entry List.mem_cons_self)
      have hsame : stop.playEntries? (entry :: rest) = p.playEntries? (entry :: rest) := by
        rw [playEntries?, playEntries?, hentry]
      rw [← hsame, Option.bind_eq_some_iff] at hplay
      obtain ⟨mid, hmid, hrest⟩ := hplay
      obtain ⟨hbeyond, hreach, hpast'⟩ :=
        Beyond.of_playEntries? huntil.reachable hpast hlast hlater hmid
      exact hbeyond.trans (.of_end? hreach hpast' hrest)
  | nil =>
      have hplay : p.end? cutoff = some p' := hplay
      cases cutoff with
      | some x =>
          have hle : last ≤ max x p.stage.now := Nat.le_trans (hcutoff x rfl) (Nat.le_max_left _ _)
          exact .of_advanceTo? huntil.reachable hpast
            ((advanceTo?_pieces h.reachable hle hstop).trans hplay)
      | none =>
          rcases settleWithin_cases h.reachable hplay with ⟨hsettled, rfl⟩ | hadvance
          · -- the stage is settled, and at the cut nothing happens any more
            have hreads : p'.stage.now = last := Nat.le_antisymm h.now_le hend
            have hnothing := h.reachable.lt_due_of_isSettled hsettled (hreads ▸ hlast)
            rw [hreads] at hnothing
            obtain ⟨hevents, hrejected⟩ :=
              (Beyond.of_advanceTo? h.reachable hnothing hstop).eq_of_until huntil
            exact .of_eq hevents.symm hrejected.symm
          · exact .of_advanceTo? huntil.reachable hpast
              ((advanceTo?_pieces h.reachable hend hstop).trans hadvance)

/-- A player has written down just what another one has up to an instant, and that is the beginning
    of it. -/
structure IsCutOf (last : Instant) (p p' : Player) : Prop where
  events_eq : p.events = p'.events.filter fun e => decide (e.instant ≤ last)
  events_prefix : p.events <+: p'.events
  rejected_eq : p.rejected = p'.rejected.filter fun r => decide (r.instant ≤ last)
  rejected_prefix : p.rejected <+: p'.rejected

theorem IsCutOf.of_beyond (h : p.Until last) (hbeyond : Beyond last p p') : IsCutOf last p p' where
  events_eq := hbeyond.events.eq_filter h.events_le
  events_prefix := hbeyond.events.isPrefix
  rejected_eq := hbeyond.rejected.eq_filter h.rejected_le
  rejected_prefix := hbeyond.rejected.isPrefix

/-- There is a player at the cut. It depends on what is to be played up to there only, and every play
    that gets as far begins like it. -/
theorem Until.exists_cut (h : p.Until last) (hlast : last < lastInstant) {kept : List TimelineEntry}
    (hkept : ∀ e ∈ kept, e.instant ≤ last) :
    ∃ stop : Player, stop.stage.now = last ∧ (∀ e ∈ stop.stage.agenda.entries, last < e.due) ∧
      ∀ later, (∀ e ∈ later, last < e.instant) →
        p.play? (kept ++ later) (some last) = some stop ∧
        ∀ cutoff, (∀ x, cutoff = some x → last ≤ x) → ∀ p',
          p.play? (kept ++ later) cutoff = some p' → last ≤ p'.stage.now → IsCutOf last stop p' := by
  obtain ⟨q, hq, hqUntil⟩ := h.playEntries? hlast hkept
  obtain ⟨stop, hstop, huntil⟩ := hqUntil.advanceTo? hlast (Nat.le_refl _)
  have hmin : min last lastInstant = last := Nat.min_eq_left (Nat.le_of_lt hlast)
  have hnow : stop.stage.now = last := by
    rw [advanceTo?_now hqUntil.reachable hstop, hmin, Nat.max_eq_right hqUntil.now_le]
  have hpast : ∀ e ∈ stop.stage.agenda.entries, last < e.due := by
    obtain ⟨s, log, htimed, rfl⟩ := exists_of_advanceTo? hqUntil.reachable hstop
    have hafter := hqUntil.reachable.lt_due_of_advanceTo? (Stage.advanceTo?_of_timed htimed)
    rwa [hmin] at hafter
  refine ⟨stop, hnow, hpast, fun later hlater => ⟨?_, fun cutoff hcutoff p' hplay hend => ?_⟩⟩
  · have hfirst : entriesUntil (some last) (kept ++ later) = kept := by
      rw [entriesUntil_append hkept fun x hx => Nat.le_of_eq (Option.some.inj hx),
        entriesUntil_of_later hlater, List.append_nil]
    rw [play?_eq, hfirst, hq, Option.bind_some, end?, Nat.max_eq_left hqUntil.now_le, hstop]
  · rw [play?_eq, entriesUntil_append hkept hcutoff, playEntries?_append, hq, Option.bind_some] at hplay
    exact .of_beyond huntil (beyond_of_play hqUntil hlast hstop huntil hnow hpast
      (fun e he => hlater e (mem_of_mem_entriesUntil he)) hcutoff hplay hend)

end Cut

/-! ## From the beginning -/

/-- Where every play of a program with the same settings begins. -/
theorem exists_playProgram {config : StageConfig} (hfault : config.fault? = none)
    (program : Program) : ∃ p : Player, (∀ last, p.Until last) ∧
      ∀ entries cutoff, playProgram config program entries cutoff = .ok (p.play? entries cutoff) := by
  let start := Stage.build .empty config
  refine ⟨(new (start.load program).1).record (start.load program).2, fun last => ?_, ?_⟩
  · have hload : start.operate? (.load program) = some (Stage.accepted (start.load program)) := rfl
    have hreach : Reachable (start.load program).1 :=
      .operate (.new (Stage.isNew_build hfault .empty)) hload
    have hnow : (start.load program).1.now = 0 := Stage.load_now start program
    refine ⟨hreach, Nat.le_trans (Nat.le_of_eq hnow) (Nat.zero_le _), fun e he => ?_, nofun⟩
    obtain ⟨event, -, rfl⟩ := List.mem_map.1 he
    exact hnow ▸ Nat.zero_le _
  · intro entries cutoff
    unfold playProgram Stage.withConfig
    rw [hfault]
    rfl

end Player

/-- With a seed and settings that have no fault, a play of a timeline in order that is cut off is
    the beginning of every play that is cut off later, or not at all but gets as far: it has written
    down what the other one has up to the cut. The clock stands at the cut, nothing is left that was due
    by then, and which entries come later makes no difference. -/
theorem replay_cut_off_earlier {config : StageConfig} {seed : Nat}
    (hfault : (config.withSeed seed).fault? = none) (program : Program)
    {entries : List TimelineEntry}
    (hsorted : entries.Pairwise fun a b => a.instant ≤ b.instant) {first second : Instant}
    (hle : first ≤ second) (hlast : second < lastInstant) :
    let play := Player.playProgram (config.withSeed seed) program
    ∃ p₁ p₂, play entries (some first) = .ok (some p₁) ∧ play entries (some second) = .ok (some p₂) ∧
      p₁.IsCutOf first p₂ ∧
      p₁.stage.now = first ∧ (∀ e ∈ p₁.stage.agenda.entries, first < e.due) ∧
      (∀ others : List TimelineEntry, (∀ e ∈ others, first < e.instant) →
        play (entries.filter (fun e => decide (e.instant ≤ first)) ++ others) (some first)
          = .ok (some p₁)) ∧
      ∀ p, play entries none = .ok (some p) → first ≤ p.stage.now → p₁.IsCutOf first p := by
  intro play
  obtain ⟨p, huntil, hplay⟩ := Player.exists_playProgram hfault program
  have hkept : ∀ last, ∀ e ∈ entries.filter (fun e => decide (e.instant ≤ last)), e.instant ≤ last :=
    fun last e he => by simpa using (List.mem_filter.1 he).2
  obtain ⟨later₁, heq₁, hlater₁⟩ := growsAfter_of_sorted hsorted first
  obtain ⟨later₂, heq₂, hlater₂⟩ := growsAfter_of_sorted hsorted second
  obtain ⟨p₁, hnow₁, hpast, hcut₁⟩ :=
    (huntil first).exists_cut (Nat.lt_of_le_of_lt hle hlast) (hkept first)
  obtain ⟨p₂, hnow₂, -, hcut₂⟩ := (huntil second).exists_cut hlast (hkept second)
  obtain ⟨hplay₁, hbegins⟩ := hcut₁ later₁ hlater₁
  have hplay₂ := (hcut₂ later₂ hlater₂).1
  rw [← heq₁] at hplay₁ hbegins
  rw [← heq₂] at hplay₂
  refine ⟨p₁, p₂, hplay₁ ▸ hplay _ _, hplay₂ ▸ hplay _ _, ?_, hnow₁, hpast,
    fun others hothers => ?_, fun p' hp' hend => ?_⟩
  · exact hbegins _ (fun x hx => Option.some.inj hx ▸ hle) p₂ hplay₂ (hnow₂ ▸ hle)
  · exact (hcut₁ others hothers).1 ▸ hplay _ _
  · exact hbegins none nofun p' (Except.ok.inj ((hplay _ _).symm.trans hp')) hend

/-- The run that a click starts is cut off before its last move, and the second of two refused inputs
    comes too late. -/
theorem replay_cut_off_before_last_move :
    let program : Program := ⟨[[.trigger .flagClicked, .move 10, .move 10, .move 10]], none⟩
    let refused : StageInput := .clicked ⟨"move", .empty⟩
    let entries : List TimelineEntry := [.flagAtStart, ⟨10, refused⟩, ⟨15, refused⟩]
    let play := Player.playProgram (StageConfig.withSeed {} 7) program
    let written := fun p : Player => (p.events.map (·.instant), p.rejected.map (·.instant))
    ∃ p₁ p₂, play entries (some 10) = .ok (some p₁) ∧ play entries (some 30) = .ok (some p₂) ∧
      p₁.IsCutOf 10 p₂ ∧ written p₁ = ([0, 0, 0, 10], [10]) ∧
      written p₂ = ([0, 0, 0, 10, 20, 20], [10, 15]) := by
  intro program refused entries play written
  have hfault : (StageConfig.withSeed {} 7).fault? = none := by decide
  have hsorted : entries.Pairwise fun a b => a.instant ≤ b.instant := by decide
  obtain ⟨p₁, p₂, hplay₁, hplay₂, hcut, -⟩ := replay_cut_off_earlier hfault program hsorted
    (by decide : 10 ≤ 30) (by decide : 30 < lastInstant)
  have hfirst : (play entries (some 10)).toOption.join.map written
      = some ([0, 0, 0, 10], [10]) := by decide +kernel
  have hsecond : (play entries (some 30)).toOption.join.map written
      = some ([0, 0, 0, 10, 20, 20], [10, 15]) := by decide +kernel
  rw [show play entries (some 10) = .ok (some p₁) from hplay₁] at hfirst
  rw [show play entries (some 30) = .ok (some p₂) from hplay₂] at hsecond
  exact ⟨p₁, p₂, hplay₁, hplay₂, hcut, Option.some.inj hfirst, Option.some.inj hsecond⟩

end SpriteStage

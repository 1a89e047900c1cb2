import SpriteStage.Proofs.Ending
import SpriteStage.Proofs.Operations
set_option autoImplicit false

/-! # Playing and plain operations

A player is its stage and a record. Whatever it does, its stage goes the way that a plain stage goes,
and what is written down are the events of the plain stage (`Reachable.player_follows`), each with the
instant at which it happens.

The player lets time pass from one due instant to the next and looks at the clock after each of them.
That is right because what fires until the first due instant is due just then (`Player.jump?_due`),
and because time may pass in pieces (`Stage.advanceTimed?_pieces`). -/

namespace SpriteStage

/-! ## Events in order -/

/-- Events in the order of their instants, none before the first instant or after the last. -/
structure InOrder (first : Instant) (log : List TimedEvent) (last : Instant) : Prop where
  le : first ≤ last
  sorted : log.Pairwise fun a b => a.instant ≤ b.instant
  within : ∀ e ∈ log, first ≤ e.instant ∧ e.instant ≤ last

namespace InOrder

variable {first mid last : Instant} {log later : List TimedEvent}

theorem nil (h : first ≤ last) : InOrder first [] last := ⟨h, List.Pairwise.nil, nofun⟩

theorem append (h : InOrder first log mid) (h' : InOrder mid later last) :
    InOrder first (log ++ later) last where
  le := Nat.le_trans h.le h'.le
  sorted := List.pairwise_append.2 ⟨h.sorted, h'.sorted, fun a ha b hb =>
    Nat.le_trans (h.within a ha).2 (h'.within b hb).1⟩
  within e he := by
    rcases List.mem_append.1 he with he | he
    · exact ⟨(h.within e he).1, Nat.le_trans (h.within e he).2 h'.le⟩
    · exact ⟨Nat.le_trans h.le (h'.within e he).1, (h'.within e he).2⟩

theorem stamp (s : Stage) (events : List StageEvent) : InOrder s.now (s.stamp events) s.now where
  le := Nat.le_refl _
  sorted := by
    rw [Stage.stamp, List.pairwise_map]
    exact List.pairwise_of_forall fun _ _ => Nat.le_refl _
  within e he := by
    obtain ⟨event, -, rfl⟩ := Stage.mem_stamp.1 he
    exact ⟨Nat.le_refl _, Nat.le_refl _⟩

end InOrder

theorem Stage.Path.inOrder {s s' : Stage} {log : List TimedEvent} {started : List Announcement}
    (h : Path s log started s') : InOrder s.now log s'.now := by
  induction h with
  | nil => exact .nil (Nat.le_refl _)
  | cons move _ ih =>
      exact ((InOrder.nil move.now_le).append (.stamp _ _)).append ih

namespace Player

/-! ## What a player writes down -/

/-- The player after its stage has gone on and told something. -/
def follow (p : Player) (result : Stage × List TimedEvent) : Player :=
  ⟨result.1, p.events ++ result.2, p.rejected⟩

@[simp] theorem follow_nil (p : Player) : p.follow (p.stage, []) = p := by simp [follow]

@[simp] theorem follow_follow (p : Player) (s s' : Stage) (log later : List TimedEvent) :
    (p.follow (s, log)).follow (s', later) = p.follow (s', log ++ later) := by simp [follow]

section Advance

variable {p : Player} {target : Instant} {entry : Appointment} {rest : List Appointment}

/-- Nothing is written down if nothing is due. -/
theorem jump?_of_fireNext?_eq_none {s' : Stage} {log : List TimedEvent}
    (ht : Timely p.stage) (hnone : p.stage.fireNext? target = none)
    (h : p.stage.advanceTimed? target = some (s', log)) : p.jump? target = some (p.follow (s', log)) := by
  obtain ⟨row, mid, hrow, -, rfl⟩ := Stage.exists_fires_of_advanceTimed? ht h
  have hempty : row = [] := by
    cases hrow with
    | done _ => rfl
    | @fire _ _ entry _ _ hentries hdue _ =>
        have hlater := Stage.fireNext?_eq_none.1 hnone entry (by simp [hentries])
        exact absurd hlater (Nat.not_lt.2 (Nat.le_trans hdue (Nat.min_le_left _ _)))
  rw [jump?_eq, Stage.advanceTo?_of_timed h, hempty]
  simp [record, follow]

/-- What fires until the first due instant is due just then, and it is what the clock reads after
    it. -/
theorem jump?_due {s' : Stage} {log : List TimedEvent} (ht : Timely p.stage)
    (hentries : p.stage.agenda.entries = entry :: rest)
    (h : p.stage.advanceTimed? entry.due = some (s', log)) :
    p.jump? entry.due = some (p.follow (s', log)) := by
  obtain ⟨row, mid, hrow, hmid, rfl⟩ := Stage.exists_fires_of_advanceTimed? ht h
  have hfirst := ht.due entry (hentries ▸ List.mem_cons_self)
  rw [Nat.min_eq_left hfirst.2] at hrow hmid
  have hsoonest : ∀ e ∈ p.stage.agenda.entries, entry.due ≤ e.due := by
    rw [hentries]
    intro e he
    rcases List.mem_cons.1 he with rfl | he
    · exact Nat.le_refl _
    · exact ht.ordered.first_le hentries e he
  have hdue : ∀ f ∈ row, f.entry.due = entry.due := fun f hf =>
    Nat.le_antisymm (hrow.due_le f hf) (hrow.le_due ht hsoonest f hf)
  have hadvance : p.stage.advanceTo? entry.due = some (s', row.flatMap (·.events)) := by
    rw [Stage.advanceTo?_of_timed h, map_event_told]
  have hnow : s'.now = entry.due := by
    rw [Stage.advanceTo?_now hadvance, Nat.min_eq_left hfirst.2, Nat.max_eq_right hfirst.1]
  rw [jump?_eq, hadvance, told_of_due_eq hdue]
  simp [record, follow, hnow]

/-- The player gets where its stage gets, with all that is told on the way. -/
theorem advanceWithin_eq_follow {s' : Stage} {log : List TimedEvent} (h : Reachable p.stage)
    (hends : ¬ p.stage.WalksToTheEnd target)
    (hadvance : p.stage.advanceTimed? target = some (s', log)) {fuel : Nat}
    (hfuel : p.stage.workUntil target ≤ fuel) :
    p.advanceWithin target fuel = some (p.follow (s', log)) := by
  have hlast : p.stage.demo.isAnimating = true → target < lastInstant := fun hwalking =>
    Nat.lt_of_not_le fun hle => hends ⟨hwalking, hle⟩
  induction fuel generalizing p log with
  | zero =>
      cases hfire : p.stage.fireNext? target with
      | none =>
          rw [advanceWithin_of_fireNext?_eq_none hfire]
          exact jump?_of_fireNext?_eq_none h.timely hfire hadvance
      | some _ =>
          obtain ⟨entry, rest, hentries, hdue, -⟩ := Stage.fireNext?_eq_some.1 hfire
          obtain ⟨mid, events, -, -, hless, -⟩ := h.advance_next hentries
            (fun hwalking => Nat.lt_of_le_of_lt hdue (hlast hwalking)) hdue
          omega
  | succ fuel ih =>
      cases hfire : p.stage.fireNext? target with
      | none =>
          rw [advanceWithin_of_fireNext?_eq_none hfire]
          exact jump?_of_fireNext?_eq_none h.timely hfire hadvance
      | some _ =>
          -- one piece until the first due instant, and the rest after it
          obtain ⟨entry, rest, hentries, hdue, -⟩ := Stage.fireNext?_eq_some.1 hfire
          obtain ⟨mid, events, hmid, hreach, hless, hdemo⟩ := h.advance_next hentries
            (fun hwalking => Nat.lt_of_le_of_lt hdue (hlast hwalking)) hdue
          obtain ⟨mid', stop, early, late, hearly, hlate, hall⟩ :=
            Stage.advanceTimed?_pieces h.timely hdue (h.exhaustible_until hends)
          obtain ⟨rfl, rfl⟩ := Prod.mk.inj (Option.some.inj (hadvance.symm.trans hall))
          have hsame : mid' = mid := by
            rw [Stage.advanceTo?_of_timed hearly] at hmid
            exact (Prod.mk.inj (Option.some.inj hmid)).1
          subst hsame
          have hrest := ih (p := p.follow (mid', early)) hreach
            (fun hforever => hends ⟨hdemo ▸ hforever.1, hforever.2⟩) hlate
            (Nat.le_of_lt_succ (Nat.lt_of_lt_of_le hless hfuel))
            fun hwalking => hlast (hdemo ▸ hwalking)
          rw [advanceWithin_succ hentries hdue, jump?_due h.timely hentries hearly, Option.bind_some,
            hrest, follow_follow]

/-- Letting time pass has a result for the player if it has one for the stage, and the same one. -/
theorem advanceTo?_eq (h : Reachable p.stage) (target : Instant) :
    p.advanceTo? target = (p.stage.advanceTimed? target).map p.follow := by
  by_cases hends : p.stage.WalksToTheEnd target
  · have hnone := h.advanceTo?_eq_none hends
    rw [Stage.advanceTo?_eq_forget, Option.map_eq_none_iff] at hnone
    rw [hnone]
    exact advanceWithin_eq_none h hends _
  · obtain ⟨result, hadvance⟩ := h.advanceTo?_isSome hends
    rw [Stage.advanceTo?_eq_forget, Option.map_eq_some_iff] at hadvance
    obtain ⟨⟨s', log⟩, htimed, -⟩ := hadvance
    rw [htimed]
    exact advanceWithin_eq_follow h hends htimed (Nat.le_refl _)

end Advance

/-! ## Settling -/

theorem settleWithin_eq {p : Player} (h : Reachable p.stage) (fuel : Nat) :
    p.settleWithin fuel = (p.stage.settleTimedWithin fuel).map p.follow := by
  induction fuel generalizing p with
  | zero =>
      unfold settleWithin Stage.settleTimedWithin
      split
      · simp
      · cases p.stage.agenda.nextDue? <;> simp
  | succ fuel ih =>
      unfold settleWithin Stage.settleTimedWithin
      split
      · simp
      · cases p.stage.agenda.nextDue? with
        | none => simp
        | some due =>
            simp only [advanceTo?_eq h]
            cases hadvance : p.stage.advanceTimed? due with
            | none => rfl
            | some first =>
                obtain ⟨mid, early⟩ := first
                have hmid : Reachable mid := h.advanceTo (Stage.advanceTo?_of_timed hadvance)
                simp only [Option.map_some, Option.bind_eq_bind, Option.bind_some,
                  ih (p := p.follow (mid, early)) hmid]
                simp only [follow]
                cases hrest : mid.settleTimedWithin fuel with
                | none => rfl
                | some last => simp [follow]

/-- Settling has a result for the player if it has one for the stage, and the same one. -/
theorem settle?_eq {p : Player} (h : Reachable p.stage) :
    p.settle? = (p.stage.settleTimedWithin (p.stage.workUntil lastInstant)).map p.follow :=
  settleWithin_eq h _

end Player

namespace Stage

/-! ## Playing on a plain stage -/

/-- Go on from what has come of a stage, and keep the events of both. -/
def andThen (first : Option (Stage × List StageEvent))
    (next : Stage → Option (Stage × List StageEvent)) : Option (Stage × List StageEvent) :=
  first.bind fun before => (next before.1).map fun after => (after.1, before.2 ++ after.2)

/-- Answer an input. What is refused tells nothing. -/
def respond (s : Stage) (input : StageInput) : Stage × List StageEvent :=
  ((s.handle input).1, eventsOf (s.handle input).2)

/-- Let time pass until an entry comes, and answer its input. -/
def respondAt? (s : Stage) (entry : TimelineEntry) : Option (Stage × List StageEvent) :=
  andThen (s.advanceTo? (max entry.instant s.now)) fun s => some (s.respond entry.input)

/-- Play entries in order. -/
def playEntries? (s : Stage) : List TimelineEntry → Option (Stage × List StageEvent)
  | [] => some (s, [])
  | entry :: rest => andThen (s.respondAt? entry) fun s => s.playEntries? rest

/-- Let time pass until the end, or, if there is none, until the stage is settled. -/
def end? (s : Stage) : Option Instant → Option (Stage × List StageEvent)
  | some last => s.advanceTo? (max last s.now)
  | none => s.settle?

/-- Play a timeline without writing down any instants. -/
def play? (s : Stage) (entries : List TimelineEntry) (cutoff : Option Instant) :
    Option (Stage × List StageEvent) :=
  andThen (s.playEntries? (Player.entriesUntil cutoff entries)) fun s => s.end? cutoff

end Stage

namespace Player

/-- A player has gone on as a plain stage does, if that gets anywhere, and has written down its
    events in order. -/
inductive Follows (p : Player) : Option Player → Option (Stage × List StageEvent) → Prop
  | never : Follows p none none
  | ends {p' : Player} {log : List TimedEvent} (reachable : Reachable p'.stage)
      (events_eq : p'.events = p.events ++ log) (inOrder : InOrder p.stage.now log p'.stage.now) :
      Follows p (some p') (some (p'.stage, log.map (·.event)))

namespace Follows

variable {p : Player}

/-- Nothing happens and nothing is told. -/
theorem of_eq {p' : Player} (h : Reachable p.stage) (hstage : p'.stage = p.stage)
    (hevents : p'.events = p.events) : p.Follows (some p') (some (p.stage, [])) := by
  have hnothing : p'.events = p.events ++ [] := by rw [hevents, List.append_nil]
  have horder : InOrder p.stage.now [] p'.stage.now := .nil (Nat.le_of_eq (by rw [hstage]))
  have hfollows := Follows.ends (hstage ▸ h) hnothing horder
  rwa [List.map_nil, hstage] at hfollows

/-- What is kept from one operation to the next is kept by both in a row. -/
theorem bind {played : Option Player} {plain : Option (Stage × List StageEvent)}
    (h : p.Follows played plain) {next : Player → Option Player}
    {next' : Stage → Option (Stage × List StageEvent)}
    (hnext : ∀ p' : Player, Reachable p'.stage → p'.Follows (next p') (next' p'.stage)) :
    p.Follows (played.bind next) (Stage.andThen plain next') := by
  cases h with
  | never => exact .never
  | @ends p' log hreachable hevents horder =>
      have hlater := hnext p' hreachable
      rw [Stage.andThen, Option.bind_some, Option.bind_some]
      revert hlater
      generalize next p' = played
      generalize next' p'.stage = plain
      intro hlater
      cases hlater with
      | never => exact .never
      | @ends last later hreachable' hevents' horder' =>
          rw [Option.map_some, ← List.map_append]
          refine .ends hreachable' ?_ (horder.append horder')
          rw [hevents', hevents, List.append_assoc]

/-- Operations that let time pass. -/
theorem of_timed {timed : Option (Stage × List TimedEvent)}
    (h : ∀ result, timed = some result →
      Reachable result.1 ∧ InOrder p.stage.now result.2 result.1.now) :
    p.Follows (timed.map p.follow) (timed.map Stage.forget) := by
  cases timed with
  | none => exact .never
  | some result =>
      obtain ⟨hreachable, horder⟩ := h result rfl
      exact .ends (show Reachable (p.follow result).stage from hreachable) rfl horder

theorem advanceTo? (h : Reachable p.stage) (target : Instant) :
    p.Follows (p.advanceTo? target) (p.stage.advanceTo? target) := by
  rw [advanceTo?_eq h, Stage.advanceTo?_eq_forget]
  refine of_timed fun result hresult => ⟨?_, (Stage.path_of_advanceTimed? hresult).inOrder⟩
  exact h.advanceTo (Stage.advanceTo?_of_timed hresult)

theorem settle? (h : Reachable p.stage) : p.Follows p.settle? p.stage.settle? := by
  rw [settle?_eq h, Stage.settle?, Stage.settleWithin_eq]
  refine of_timed fun result hresult => ⟨?_, (Stage.path_of_settleTimedWithin hresult).inOrder⟩
  have hsettle : p.stage.operate? .settle = some (Stage.accepted (Stage.forget result)) := by
    rw [Stage.operate?, Stage.settle?, Stage.settleWithin_eq, hresult]
    rfl
  exact .operate h hsettle

theorem handle (h : Reachable p.stage) (entry : TimelineEntry) :
    p.Follows (some (p.handle entry)) (some (p.stage.respond entry.input)) := by
  unfold Player.handle Stage.respond
  rcases hhandle : p.stage.handle entry.input with ⟨s', e | events⟩
  · obtain rfl := Stage.eq_of_refused hhandle
    exact .of_eq h rfl rfl
  · have horder : InOrder p.stage.now (s'.stamp events) s'.now :=
      Stage.handle_now hhandle ▸ .stamp s' events
    have hfollows : p.Follows (some (({ p with stage := s' } : Player).record events))
        (some (s', (s'.stamp events).map (·.event))) :=
      .ends (h.handle _ hhandle) rfl horder
    rwa [Stage.map_event_stamp] at hfollows

theorem respondAt? (h : Reachable p.stage) (entry : TimelineEntry) :
    p.Follows ( p.playEntry? entry) (p.stage.respondAt? entry) :=
  (advanceTo? h _).bind fun _ h' => handle h' entry

theorem playEntries? (h : Reachable p.stage) (entries : List TimelineEntry) :
    p.Follows (p.playEntries? entries) (p.stage.playEntries? entries) := by
  induction entries generalizing p with
  | nil => exact .of_eq h rfl rfl
  | cons entry rest ih => exact (respondAt? h entry).bind fun _ h' => ih h'

theorem play? (h : Reachable p.stage) (entries : List TimelineEntry) (cutoff : Option Instant) :
    p.Follows (p.play? entries cutoff) (p.stage.play? entries cutoff) := by
  refine (playEntries? h _).bind fun p' h' => ?_
  cases cutoff with
  | some last => exact advanceTo? h' _
  | none => exact settle? h'

/-- The plain stage gets somewhere with some events just when the player gets there, too, and writes
    these events down. -/
theorem eq_some_iff {played : Option Player} {plain : Option (Stage × List StageEvent)}
    (h : p.Follows played plain) (s' : Stage) (events : List StageEvent) :
    plain = some (s', events) ↔ ∃ log rejected, log.map (·.event) = events ∧
      played = some ⟨s', p.events ++ log, rejected⟩ := by
  cases h with
  | never => simp
  | @ends p' log _ hevents _ =>
      obtain ⟨stage, _, rejected⟩ := p'
      obtain rfl : _ = p.events ++ log := hevents
      constructor
      · intro heq
        obtain ⟨rfl, rfl⟩ := Prod.mk.inj (Option.some.inj heq)
        exact ⟨log, rejected, rfl, rfl⟩
      · rintro ⟨log', _, rfl, heq⟩
        obtain ⟨rfl, hlog, -⟩ := Player.mk.inj (Option.some.inj heq)
        rw [List.append_cancel_left hlog]

theorem exists_inOrder {played : Option Player} {plain : Option (Stage × List StageEvent)}
    (h : p.Follows played plain) {p' : Player} (hp' : played = some p') :
    Reachable p'.stage ∧ ∃ log, p'.events = p.events ++ log ∧
      InOrder p.stage.now log p'.stage.now := by
  cases h with
  | never => cases hp'
  | ends hreachable hevents horder =>
      cases hp'
      exact ⟨hreachable, _, hevents, horder⟩

end Follows

end Player

/-! ## Players and plain stages -/

/-- On every stage that can be reached a player and the plain stage get to the same stage with the
    same events. When time passes until an instant, each event is written down with the instant at
    which the entry of the agenda is due that brought it about. When a timeline is played, the instants
    never decrease, whatever the order of the entries is and wherever the play ends. -/
theorem Reachable.player_follows {p : Player} (h : Reachable p.stage) :
    (∀ target, target < lastInstant ∨ p.stage.demo.isAnimating = false →
      ∃ s' row mid, Stage.Fires (min target lastInstant) p.stage row mid ∧
        p.stage.advanceTo? target = some (s', row.flatMap (·.events)) ∧
        p.advanceTo? target = some ⟨s', p.events ++ row.flatMap Firing.told, p.rejected⟩) ∧
    (∀ s' events, p.stage.settle? = some (s', events) ↔ ∃ log, log.map (·.event) = events ∧
      p.settle? = some ⟨s', p.events ++ log, p.rejected⟩) ∧
    ∀ entries cutoff,
      (∀ s' events, p.stage.play? entries cutoff = some (s', events) ↔
        ∃ log rejected, log.map (·.event) = events ∧
          p.play? entries cutoff = some ⟨s', p.events ++ log, rejected⟩) ∧
      ∀ p', p.play? entries cutoff = some p' → ∃ log, p'.events = p.events ++ log ∧
        (log.Pairwise fun a b => a.instant ≤ b.instant) ∧ ∀ e ∈ log, p.stage.now ≤ e.instant := by
  refine ⟨fun target hends => ?_, fun s' events => ?_, fun entries cutoff => ⟨?_, ?_⟩⟩
  · have hbefore : ¬ p.stage.WalksToTheEnd target := by
      rintro ⟨hwalking, hlast⟩
      rcases hends with hlt | hidle
      · exact absurd hlast (Nat.not_le.2 hlt)
      · rw [hidle] at hwalking
        cases hwalking
    obtain ⟨⟨mid, events⟩, hdrain⟩ := h.drain_isSome hbefore (Nat.le_refl _)
    obtain ⟨row, hrow, -⟩ := (Stage.drains_of_drain hdrain).exists_fires
    have htimed := Stage.advanceTimed?_of_fires h.timely (h.exhaustible_until hbefore) hrow
    refine ⟨mid.waitUntil (min target lastInstant), row, mid, hrow, ?_, ?_⟩
    · rw [Stage.advanceTo?_of_timed htimed, map_event_told]
    · rw [Player.advanceTo?_eq h, htimed]
      rfl
  · rw [Player.settle?_eq h, Stage.settle?, Stage.settleWithin_eq]
    cases p.stage.settleTimedWithin (p.stage.workUntil lastInstant) with
    | none => simp
    | some result =>
        obtain ⟨stop, log⟩ := result
        simp only [Option.map_some, Stage.forget, Player.follow, Option.some.injEq, Prod.mk.injEq,
          Player.mk.injEq, List.append_cancel_left_eq, and_true]
        constructor
        · rintro ⟨rfl, rfl⟩
          exact ⟨log, rfl, rfl, rfl⟩
        · rintro ⟨_, rfl, rfl, rfl⟩
          exact ⟨rfl, rfl⟩
  · exact (Player.Follows.play? h entries cutoff).eq_some_iff
  · intro p' hp'
    obtain ⟨-, log, hevents, horder⟩ := (Player.Follows.play? h entries cutoff).exists_inOrder hp'
    exact ⟨log, hevents, horder.sorted, fun e he => (horder.within e he).1⟩

/-- The two moves of a run that are left after a click. -/
theorem player_follows_two_moves :
    let start := Stage.new ⟨[[.trigger .flagClicked, .move 10, .move 10, .move 10]], none⟩
    let s := (start.dispatch (.trigger .flagClicked)).1
    ∃ s' row mid, Stage.Fires 25 s row mid ∧
      s.advanceTo? 25 = some (s', row.flatMap (·.events)) ∧
      (Player.new s).advanceTo? 25 = some ⟨s', row.flatMap Firing.told, []⟩ ∧
      (row.flatMap Firing.told).map (·.instant) = [10, 20, 20] := by
  intro start s
  have hstart : Reachable start := .new (Stage.isNew_new _)
  have hreachable : Reachable (Player.new s).stage := hstart.handle .flagClicked rfl
  obtain ⟨s', row, mid, hrow, hstage, hplayer⟩ :=
    hreachable.player_follows.1 25 (Or.inl (by decide))
  have hinstants : ((Player.new s).advanceTo? 25).map (fun p => p.events.map (·.instant))
      = some [10, 20, 20] := by decide +kernel
  rw [hplayer] at hinstants
  exact ⟨s', row, mid, hrow, hstage, hplayer, Option.some.inj hinstants⟩

end SpriteStage

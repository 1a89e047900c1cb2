import SpriteStage.Proofs.WithoutDemo
set_option autoImplicit false

/-! # The demo and the sprite do not interfere

A row of operations and the same row without the inputs for the demo go hand in hand
(`Reachable.operateAll_withoutDemo`). While time passes the stage with the demo fires its ticks in
between, and its clock is ahead of the other one until the next entry fires on both sides
(`Stage.Precedes`). On the way to rest it makes more waits, since it stops at its ticks, too.

The other way round the demo of a stage is a clockwork that sees nothing but the inputs for the demo
and the clock. `demo_and_sprite_apart` says both. -/

namespace SpriteStage

namespace Stage

/-! ## While time passes -/

/-- While the cats stand no tick is scheduled. -/
theorem not_isDemoTick_of_idle {t : Stage} (hp : Paced t) (hidle : t.demo.isAnimating = false) :
    ∀ e ∈ t.agenda.entries, e.timer.isDemoTick = false := by
  intro e he
  cases htimer : e.timer with
  | demoTick session =>
      have hmem : session ∈ t.agenda.demoTicks := Agenda.mem_pick.2 ⟨e, he, by rw [htimer]; rfl⟩
      rw [hp.idle hidle] at hmem
      cases hmem
  | step run index => rfl
  | clear cell version => rfl

/-- The stage with the demo has fired ticks on its own, so its clock may be ahead of the other one,
    where the cats stand. -/
structure Precedes (target : Instant) (s t : Stage) : Prop where
  stage : t = { s with agenda := t.agenda, demo := t.demo, now := t.now }
  agenda : s.agenda.SameButTicks t.agenda
  timely : Timely s
  timely' : Timely t
  paced : Paced t
  idle : t.demo.isAnimating = false
  behind : t.now ≤ s.now
  ahead : s.now ≤ max t.now target

theorem SameButDemo.precedes {s t : Stage} (h : SameButDemo s t) (hs : Timely s) (ht : Timely t)
    (hp : Paced t) (hidle : t.demo.isAnimating = false) (target : Instant) :
    Precedes target s t where
  stage := by rw [h.now_eq]; exact h.stage
  agenda := h.agenda
  timely := hs
  timely' := ht
  paced := hp
  idle := hidle
  behind := Nat.le_of_eq h.now_eq
  ahead := by rw [h.now_eq]; exact Nat.le_max_left _ _

namespace Precedes

variable {target : Instant} {s t : Stage} {entry : Appointment} {rest : List Appointment}

/-- If nothing is due with the demo, nothing is due without it. -/
theorem fireNext?_eq_none (h : Precedes target s t) (hnone : s.fireNext? target = none) :
    t.fireNext? target = none := by
  rw [Stage.fireNext?_eq_none]
  intro e hhead
  have he : e ∈ t.agenda.entries := List.mem_of_head? hhead
  have hmem : (e.due, e.timer) ∈ t.agenda.pending :=
    Agenda.mem_pending.2 ⟨not_isDemoTick_of_idle h.paced h.idle e he, e, he, rfl, rfl⟩
  rw [h.agenda.pending] at hmem
  obtain ⟨-, e', he', hdue, -⟩ := Agenda.mem_pending.1 hmem
  exact hdue ▸ h.timely.lt_due hnone e' he'

/-- A tick fires on the one side only. -/
theorem fire_tick (h : Precedes target s t) (hentries : s.agenda.entries = entry :: rest)
    (hdue : entry.due ≤ target) (htick : entry.timer.isDemoTick = true) :
    Precedes target ((s.arrive entry rest).fire entry.timer).1 t ∧
      withoutDemo ((s.arrive entry rest).fire entry.timer).2 = [] := by
  have harrive : SameButDemo (s.arrive entry rest) { t with now := (s.arrive entry rest).now } :=
    ⟨by rw [h.stage]; rfl, h.agenda.tail_of_tick hentries htick⟩
  obtain ⟨hfired, hevents⟩ := harrive.fire_tick htick
  have hstage := congrArg (fun x : Stage => { x with now := t.now }) hfired.stage
  refine ⟨⟨hstage, hfired.agenda, (h.timely.arrive hentries).fire _, h.timely', h.paced, h.idle,
    ?_, ?_⟩, hevents⟩
  · rw [fire_now]
    exact Nat.le_trans h.behind (Nat.le_max_left _ _)
  · rw [fire_now, h.timely.now_arrive hentries]
    exact Nat.le_trans hdue (Nat.le_max_right _ _)

/-- Any other entry fires on both sides, with both clocks at the instant at which it is due. -/
theorem fire (h : Precedes target s t) (hentries : s.agenda.entries = entry :: rest)
    (hdue : entry.due ≤ target) (hother : entry.timer.isDemoTick = false) :
    ∃ t', t.fireNext? target
        = some (t', withoutDemo ((s.arrive entry rest).fire entry.timer).2) ∧
      Precedes target ((s.arrive entry rest).fire entry.timer).1 t' := by
  obtain ⟨entry', rest', hentries', hdue', htimer', hagenda⟩ :=
    h.agenda.exists_first (not_isDemoTick_of_idle h.paced h.idle) hentries hother
  have hnow : (t.arrive entry' rest').now = (s.arrive entry rest).now := by
    rw [h.timely'.now_arrive hentries', h.timely.now_arrive hentries, hdue']
  have harrive : SameButDemo (s.arrive entry rest) (t.arrive entry' rest') := by
    refine ⟨?_, hagenda⟩
    calc t.arrive entry' rest'
      _ = { t with
            agenda := (t.arrive entry' rest').agenda
            now := (t.arrive entry' rest').now } := rfl
      _ = { t with
            agenda := (t.arrive entry' rest').agenda
            now := (s.arrive entry rest).now } := by rw [hnow]
      _ = { s.arrive entry rest with
            agenda := (t.arrive entry' rest').agenda
            demo := (t.arrive entry' rest').demo } := by rw [h.stage]; rfl
  obtain ⟨hfired, hevents⟩ := harrive.fire hother
  refine ⟨((t.arrive entry' rest').fire entry.timer).1, ?_, ?_⟩
  · rw [← hevents]
    exact fireNext?_eq_some.2 ⟨entry', rest', hentries', hdue' ▸ hdue, by rw [htimer']⟩
  · refine hfired.precedes ((h.timely.arrive hentries).fire _) ((h.timely'.arrive hentries').fire _)
      ?_ ?_ target
    · rw [← htimer']
      exact h.paced.fire hentries'
    · rw [fire_demo_isAnimating]
      exact h.idle

/-- The clocks meet when nothing is due any more. -/
theorem waitUntil (h : Precedes target s t) :
    SameButDemo (s.waitUntil target) (t.waitUntil target) := by
  have hnow : max t.now target = max s.now target := by
    have hbehind := h.behind
    have hahead := h.ahead
    lia
  refine ⟨?_, h.agenda⟩
  unfold Stage.waitUntil
  rw [hnow, h.stage]

end Precedes

namespace Drains

variable {target : Instant} {s s' t : Stage} {events : List StageEvent}

/-- The stage without the demo fires what the stage with it fires but for the ticks. -/
theorem withoutDemo (h : Drains target s events s') (hst : Precedes target s t) :
    ∃ t', Drains target t (SpriteStage.withoutDemo events) t' ∧ Precedes target s' t' := by
  induction h generalizing t with
  | done hnone => exact ⟨t, .done (hst.fireNext?_eq_none hnone), hst⟩
  | @fire s mid s' events later hfire _ ih =>
      obtain ⟨entry, rest, hentries, hdue, rfl, rfl⟩ := exists_of_fireNext? hfire
      rw [withoutDemo_append]
      cases htick : entry.timer.isDemoTick with
      | true =>
          obtain ⟨hmid, hevents⟩ := hst.fire_tick hentries hdue htick
          obtain ⟨t', hdrains, hlast⟩ := ih hmid
          rw [hevents]
          exact ⟨t', hdrains, hlast⟩
      | false =>
          obtain ⟨mid', hfire', hmid⟩ := hst.fire hentries hdue htick
          obtain ⟨t', hdrains, hlast⟩ := ih hmid
          exact ⟨t', .fire hfire' hdrains, hlast⟩

end Drains

theorem isSettled_iff_pending {s : Stage} : s.isSettled = true ↔ s.agenda.pending = [] := by
  rw [isSettled_iff, Agenda.pending, Agenda.dues, List.filterMap_eq_nil_iff]
  refine forall₂_congr fun e _ => ?_
  cases htick : e.timer.isDemoTick with
  | true => simp [Timer.ofSprite?_eq_none htick]
  | false => simp [Timer.ofSprite?_eq_some htick]

theorem SameButDemo.isSettled_eq {s t : Stage} (h : SameButDemo s t) :
    t.isSettled = s.isSettled := by
  rw [Bool.eq_iff_iff, isSettled_iff_pending, isSettled_iff_pending, h.agenda.pending]

end Stage

namespace Reachable

variable {s s' t : Stage} {target : Instant} {events : List StageEvent}

/-- Where the cats stand, what is due by any instant runs out. -/
theorem exhaustible_of_idle (ht : Reachable t) (hidle : t.demo.isAnimating = false)
    (target : Instant) : t.Exhaustible target := by
  refine ht.exhaustible fun hwalking => ?_
  rw [hidle] at hwalking
  cases hwalking

theorem advanceTo_withoutDemo (hs : Reachable s) (ht : Reachable t)
    (hidle : t.demo.isAnimating = false) (h : s.SameButDemo t)
    (hadvance : s.advanceTo? target = some (s', events)) :
    ∃ t', t.advanceTo? target = some (t', withoutDemo events) ∧ s'.SameButDemo t' := by
  obtain ⟨mid, hdrains, rfl⟩ := Stage.advanceTo?_eq_some hadvance
  obtain ⟨mid', hdrains', hmid⟩ :=
    hdrains.withoutDemo (h.precedes hs.timely ht.timely ht.paced hidle _)
  exact ⟨_, Stage.advanceTo?_of_drains (ht.exhaustible_of_idle hidle _) hdrains', hmid.waitUntil⟩

/-- On the way to rest the stage without the demo makes fewer waits, since it passes over the ticks
    of the other one. -/
theorem settles_withoutDemo (hs : Reachable s) (ht : Reachable t)
    (hidle : t.demo.isAnimating = false) (h : s.SameButDemo t)
    (hsettles : Stage.Settles s events s') :
    ∃ t', Stage.Settles t (withoutDemo events) t' ∧ s'.SameButDemo t' := by
  induction hsettles generalizing t with
  | settled hsettled => exact ⟨t, .settled (h.isSettled_eq.trans hsettled), h⟩
  | @advance s mid s' entry rest events later hunsettled hentries hadvance _ ih =>
      obtain ⟨mid', hadvance', hmid⟩ := hs.advanceTo_withoutDemo ht hidle h hadvance
      obtain ⟨t', hsettles', hlast⟩ := ih (hs.advanceTo hadvance) (ht.advanceTo hadvance')
        ((Stage.advanceTo?_isAnimating hadvance').trans hidle) hmid
      refine ⟨t', ?_, hlast⟩
      rw [withoutDemo_append]
      -- the first entry with the demo is due no later than the first one without it
      have hunsettled' : ¬ t.isSettled = true := by rwa [h.isSettled_eq]
      obtain ⟨entry', rest', hentries'⟩ := Stage.exists_entry hunsettled'
      have he' : entry' ∈ t.agenda.entries := hentries' ▸ List.mem_cons_self
      have hmem : (entry'.due, entry'.timer) ∈ t.agenda.pending := Agenda.mem_pending.2
        ⟨Stage.not_isDemoTick_of_idle ht.paced hidle entry' he', entry', he', rfl, rfl⟩
      rw [h.agenda.pending] at hmem
      obtain ⟨-, e, he, hdue, -⟩ := Agenda.mem_pending.1 hmem
      have hle : entry.due ≤ entry'.due := by
        rw [← hdue]
        rcases List.mem_cons.1 (hentries ▸ he) with rfl | he
        · exact Nat.le_refl _
        · exact hs.timely.ordered.first_le hentries e he
      exact hsettles'.of_advance hunsettled' hentries' hle (ht.exhaustible_of_idle hidle _)
        hadvance'

/-- What is not for the demo does not start it. -/
theorem idle_of_operate? (ht : Reachable t) (hidle : t.demo.isAnimating = false) {t' : Stage}
    {operation : Operation} (hother : operation.isForDemo = false)
    {answer : Except StageError (List StageEvent)}
    (hop : t.operate? operation = some (t', answer)) : t'.demo.isAnimating = false := by
  cases hwait : operation.isWait with
  | true =>
      refine Stage.passing_induction (P := fun x => x.demo.isAnimating = false) ?_ ?_ hwait hop
        hidle
      · intro x entry rest _ hx
        rw [Stage.fire_demo_isAnimating]
        exact hx
      · exact fun _ _ hx => hx
  | false =>
      have hdemo : t'.demo = t.demo := by
        cases operation with
        | tick _ | advanceTo _ | settle => cases hwait
        | load program =>
            cases hop
            exact congrArg Clockwork.demo (t.clockwork_load program)
        | input input =>
            have hclockwork := Stage.clockwork_handle ht.timely ht.paced (Option.some.inj hop)
            rw [Clockwork.answer_eq_self hother] at hclockwork
            exact congrArg Clockwork.demo hclockwork
      rw [hdemo]
      exact hidle

/-- An operation that is not for the demo has the same answer without it, but for the events of the
    demo. What is refused with the demo is refused without it, for the same reason. -/
theorem operate_withoutDemo (hs : Reachable s) (ht : Reachable t)
    (hidle : t.demo.isAnimating = false) (h : s.SameButDemo t) {operation : Operation}
    (hother : operation.isForDemo = false) {answer : Except StageError (List StageEvent)}
    (hop : s.operate? operation = some (s', answer)) :
    ∃ t', t.operate? operation = some (t', answer.map withoutDemo) ∧ s'.SameButDemo t' := by
  cases operation with
  | load program =>
      cases hop
      obtain ⟨hloaded, hevents⟩ := h.load program
      exact ⟨(t.load program).1, by rw [Stage.operate?, Stage.accepted, hevents]; rfl, hloaded⟩
  | input input =>
      have hhandle : s.handle input = (s', answer) := Option.some.inj hop
      rcases h.handle hother with ⟨r, r', hr, hr', hsame, hevents⟩ | ⟨e, he, he'⟩
      · cases hr.symm.trans hhandle
        exact ⟨r'.1, by rw [Stage.operate?, hr', Stage.accepted, hevents]; rfl, hsame⟩
      · cases he.symm.trans hhandle
        exact ⟨t, congrArg some he', h⟩
  | tick nanoseconds =>
      obtain ⟨_, hadvance, rfl⟩ := Stage.map_accepted_eq_some.1 hop
      rw [Stage.operate?, Stage.tick?, h.now_eq]
      obtain ⟨t', hadvance', hlast⟩ := hs.advanceTo_withoutDemo ht hidle h hadvance
      exact ⟨t', Stage.map_accepted_eq_some.2 ⟨_, hadvance', rfl⟩, hlast⟩
  | advanceTo target =>
      obtain ⟨_, hadvance, rfl⟩ := Stage.map_accepted_eq_some.1 hop
      obtain ⟨t', hadvance', hlast⟩ := hs.advanceTo_withoutDemo ht hidle h hadvance
      exact ⟨t', Stage.map_accepted_eq_some.2 ⟨_, hadvance', rfl⟩, hlast⟩
  | settle =>
      obtain ⟨_, hsettle, rfl⟩ := Stage.map_accepted_eq_some.1 hop
      obtain ⟨t', hsettles, hlast⟩ :=
        hs.settles_withoutDemo ht hidle h (Stage.settles_of_settleWithin hsettle)
      have hends : ¬ t.NeverSettles := fun hforever => by
        rw [hforever.1] at hidle
        cases hidle
      have hsettle' := (ht.settle?_eq_some_iff hends).2 hsettles
      exact ⟨t', Stage.map_accepted_eq_some.2 ⟨_, hsettle', rfl⟩, hlast⟩

/-- An operation for the demo changes nothing else. -/
theorem demo_of_operate? (h : s.SameButDemo t) {operation : Operation}
    (hdemo : operation.isForDemo = true) {answer : Except StageError (List StageEvent)}
    (hop : s.operate? operation = some (s', answer)) : s'.SameButDemo t := by
  cases operation with
  | input input =>
      have hhandle : s.handle input = (s', answer) := Option.some.inj hop
      cases answer with
      | error e => exact Stage.eq_of_refused hhandle ▸ h
      | ok events => exact h.handle_demo hdemo hhandle
  | load _ | tick _ | advanceTo _ | settle => cases hdemo

/-- A row of operations and the same row without the inputs for the demo lead to stages that are the
    same but for the demo, with the same answers but for its events. -/
theorem operateAll_withoutDemo (hs : Reachable s) (ht : Reachable t)
    (hidle : t.demo.isAnimating = false) (h : s.SameButDemo t) {ops : List Operation}
    {records : List Record} (hops : s.operateAll? ops = some (s', records)) :
    ∃ t', t.operateAll? (ops.filter (!·.isForDemo))
        = some (t', (records.filter (!·.operation.isForDemo)).map Record.withoutDemo) ∧
      s'.SameButDemo t' := by
  induction ops generalizing s t records with
  | nil =>
      cases hops
      exact ⟨t, rfl, h⟩
  | cons operation ops ih =>
      obtain ⟨mid, answer, rest, hop, hrest, rfl⟩ := Stage.operateAll?_cons_eq_some.1 hops
      cases hdemo : operation.isForDemo with
      | true =>
          rw [List.filter_cons_of_neg (by simpa using hdemo),
            List.filter_cons_of_neg (by simpa using hdemo)]
          exact ih (.operate hs hop) ht hidle (demo_of_operate? h hdemo hop) hrest
      | false =>
          rw [List.filter_cons_of_pos (by simpa using hdemo),
            List.filter_cons_of_pos (by simpa using hdemo)]
          obtain ⟨mid', hop', hmid⟩ := hs.operate_withoutDemo ht hidle h hdemo hop
          obtain ⟨t', hrest', hlast⟩ := ih (.operate hs hop) (.operate ht hop')
            (ht.idle_of_operate? hidle hdemo hop') hmid hrest
          refine ⟨t', Stage.operateAll?_cons_eq_some.2 ⟨mid', _, _, hop', hrest', ?_⟩, hlast⟩
          rw [List.map_cons, hmid.now_eq]
          rfl

end Reachable

/-! ## Neither shows in the other -/

/-- The demo and the sprite do not interfere. Take any row of operations on a new stage.

    Without the inputs for the demo the row has the same answers but for the events of the demo,
    and leads to a stage that is the same but for the demo and its ticks. As this is so for every
    row, it is so after each of its operations.

    Before the clock ends the demo is that of any other row on any other new stage with the same
    settings of the demo, as long as the inputs for the demo came at the same instants and the
    clocks read the same. -/
theorem demo_and_sprite_apart {config : StageConfig} {start s : Stage} {ops : List Operation}
    {records : List Record} (hnew : start.IsNew config)
    (hops : start.operateAll? ops = some (s, records)) :
    (∃ t, start.operateAll? (ops.filter (!·.isForDemo))
        = some (t, (records.filter (!·.operation.isForDemo)).map Record.withoutDemo) ∧
      s.SameButDemo t) ∧
    (s.now < lastInstant →
      ∀ config' start' s' ops' records', Stage.IsNew config' start' →
        start'.operateAll? ops' = some (s', records') → config'.demo = config.demo →
        records'.filterMap Record.demoCue? = records.filterMap Record.demoCue? →
        s'.now = s.now → s'.demo = s.demo) := by
  have hstart : Reachable start := .new hnew
  constructor
  · have hidle : start.demo.isAnimating = false := by
      obtain ⟨-, program, generator, -, rfl⟩ := hnew
      rfl
    exact hstart.operateAll_withoutDemo hstart hidle (.refl hstart.timely) hops
  · intro hlast config' start' s' ops' records' hnew' hops' hdemo hcues hnow
    -- both have played the same inputs at the same instants
    have hplayed := hnew.clockwork_eq_play hops hlast
    have hplayed' := hnew'.clockwork_eq_play hops' (hnow ▸ hlast)
    rw [hdemo, hcues, hnow, ← hplayed] at hplayed'
    exact congrArg Clockwork.demo hplayed'

/-- A click while the cats walk, and a walk without a click that is looked at in between. -/
theorem demo_and_sprite_apart_while_walking :
    let start := Stage.new ⟨[[.trigger .flagClicked, .move 10, .move 10]], none⟩
    let other := Stage.new .empty
    ∃ s records s' records',
      start.operateAll? [.input .demoOpen, .input .demoStart, .input .flagClicked, .advanceTo 120]
        = some (s, records) ∧
      other.operateAll? [.input .demoOpen, .input .demoStart, .advanceTo 30, .advanceTo 120]
        = some (s', records') ∧
      (∃ t, start.operateAll? [.input .flagClicked, .advanceTo 120]
          = some (t, (records.filter (!·.operation.isForDemo)).map Record.withoutDemo) ∧
        s.SameButDemo t) ∧
      s'.demo = s.demo := by
  intro start other
  have hstart : start.IsNew {} := Stage.isNew_new _
  have hother : other.IsNew {} := Stage.isNew_new _
  have hclicked : start.operateAll? [.input .demoOpen, .input .demoStart, .input .flagClicked]
      = some (_, _) := rfl
  have hwalking : other.operateAll? [.input .demoOpen, .input .demoStart] = some (_, _) := rfl
  obtain ⟨s, events, hs, hnow⟩ :=
    ((Reachable.new hstart).operateAll hclicked).exists_advanceTo 120 (by decide)
  obtain ⟨mid, first, hmid, hmidNow⟩ :=
    ((Reachable.new hother).operateAll hwalking).exists_advanceTo 30 (by decide)
  have hlooked := Stage.operateAll?_concat hwalking hmid
  obtain ⟨s', later, hs', hnow'⟩ :=
    ((Reachable.new hother).operateAll hlooked).exists_advanceTo 120 (by decide)
  have hrow := Stage.operateAll?_concat hclicked hs
  have hrow' := Stage.operateAll?_concat hlooked hs'
  have hreads : s.now = 120 := hnow
  have hreads' : s'.now = s.now := by
    rw [hnow', hmidNow, hreads]
    rfl
  obtain ⟨hsprite, hdemo⟩ := demo_and_sprite_apart hstart hrow
  refine ⟨s, _, s', _, hrow, hrow', hsprite, ?_⟩
  exact hdemo (by rw [hreads]; decide) {} other s' _ _ hother hrow' rfl rfl hreads'

end SpriteStage

import SpriteStage.Proofs.Draining
import SpriteStage.Proofs.Operations
import SpriteStage.Proofs.Timeliness
import SpriteStage.Proofs.Versions
set_option autoImplicit false

/-! # Bubbles and their clearings

A bubble with a timeout is shown together with an entry in the agenda that clears it, and the entry
stays there as long as the bubble does. So only bubbles without a timeout stand for ever, and those
that an undo has put back: it writes what was remembered, with a new version, and schedules nothing
(`Reachable.timed_bubble_expires`, `timed_bubble_left_behind`).

`Tended s s'` says what any other move makes of the bubble: either it is left alone, and so are the
entries that clear it, or another one is shown that has what it needs. -/

namespace SpriteStage

/-! ## Timed bubbles -/

namespace Stage

/-- An entry of the agenda is the clearing of the bubble as it was last written. -/
def IsExpiry (s : Stage) (e : Appointment) : Prop :=
  e ∈ s.agenda.entries ∧ e.timer = .clear .speech s.sprite.speech.version

/-- The bubble is hidden, or has no timeout, or its clearing is scheduled. -/
def Attended (s : Stage) : Prop :=
  s.sprite.speech.value.durationMs = 0 ∨
    s.sprite.speech.value.durationMs = Speech.untimedMs ∨ ∃ e, s.IsExpiry e

theorem attended_of_silent {s : Stage} (h : s.sprite.speech.value = .silent) : s.Attended :=
  Or.inl (by rw [h]; rfl)

/-- The bubble is left alone with the entries that clear it, or an attended one was written. -/
def Tended (s s' : Stage) : Prop :=
  (s'.sprite.speech = s.sprite.speech ∧ ∀ e, s.IsExpiry e → e ∈ s'.agenda.entries) ∨
    (s.sprite.speech.version < s'.sprite.speech.version ∧ s'.Attended)

/-- The bubble is one that an undo has put back, and it has not been written since. -/
def PutBack (s : Stage) : Prop :=
  ∃ before ops records, Reachable before ∧ before.history.memories ≠ [] ∧
    before.undo.1.operateAll? ops = some (s, records) ∧
    s.sprite.speech = before.undo.1.sprite.speech

namespace Tended

variable {a s s' : Stage}

theorem refl (s : Stage) : Tended s s := Or.inl ⟨rfl, fun _ h => h.1⟩

/-- Where the bubble is left alone it is as attended as it was. -/
theorem attended (h : Tended s s') (hs : s.Attended) : s'.Attended := by
  rcases h with ⟨hspeech, hkept⟩ | ⟨-, hs'⟩
  · unfold Attended
    rw [hspeech]
    refine hs.imp_right (Or.imp_right ?_)
    rintro ⟨e, he⟩
    exact ⟨e, hkept e he, by rw [hspeech]; exact he.2⟩
  · exact hs'

theorem trans (h : Tended a s) (h' : Tended s s') : Tended a s' := by
  rcases h with ⟨hspeech, hkept⟩ | ⟨hversion, hattended⟩
  · rcases h' with ⟨hspeech', hkept'⟩ | ⟨hversion', hattended'⟩
    · refine Or.inl ⟨hspeech'.trans hspeech, fun e he => hkept' e ⟨hkept e he, ?_⟩⟩
      rw [hspeech]
      exact he.2
    · exact Or.inr ⟨hspeech ▸ hversion', hattended'⟩
  · have hlast := h'.attended hattended
    rcases h' with ⟨hspeech', -⟩ | ⟨hversion', -⟩
    · exact Or.inr ⟨hspeech' ▸ hversion, hlast⟩
    · exact Or.inr ⟨Nat.lt_trans hversion hversion', hlast⟩

/-! ## What tends the bubble -/

theorem of_same (h : SameCells s s') : Tended s s' := by
  refine Or.inl ⟨by rw [h.sprite], fun e he => (h.clears e ?_).2 he.1⟩
  rw [he.2]
  rfl

/-- A bubble that is hidden is attended. -/
theorem of_silent (hspeech : s'.sprite.speech = s.sprite.speech.write .silent) : Tended s s' := by
  refine Or.inr ⟨?_, attended_of_silent (by rw [hspeech]; rfl)⟩
  rw [hspeech]
  exact Nat.lt_succ_self _

theorem perform (s : Stage) (action : Action) : Tended s (s.perform action) := by
  have hsprite : (s.perform action).sprite = (s.performed action).sprite := by
    rw [perform_eq, scheduleClear_sprite]
  have hcases := action.perform_speech_cases ⟨(s.pointer.flush s.now).current, s.centre⟩
    s.config.randomExtent s.generator s.sprite
  rcases hcases with hspeech | ⟨message, bubble, timeoutMs, -, hsaid, hclear⟩
  · refine Or.inl ⟨by rw [hsprite]; exact hspeech, fun e he => ?_⟩
    rcases s.perform_agenda action with hagenda | ⟨ms, cell, version, hagenda⟩
    · rw [hagenda]
      exact he.1
    · rw [hagenda]
      exact Agenda.mem_schedule.2 (Or.inr he.1)
  · -- a bubble is shown, and what it needs is asked for
    have hspeech : (s.perform action).sprite.speech
        = s.sprite.speech.write ⟨message, timeoutMs.getD Speech.untimedMs, bubble == .think⟩ := by
      rw [hsprite]
      exact hsaid
    refine Or.inr ⟨by rw [hspeech]; exact Nat.lt_succ_self _, ?_⟩
    cases htimeout : timeoutMs with
    | none =>
        refine Or.inr (Or.inl ?_)
        rw [hspeech, htimeout]
        rfl
    | some ms =>
        rw [htimeout] at hclear
        have hagenda : (s.perform action).agenda = s.agenda.schedule (after s.now ms)
            (.clear .speech (s.performed action).sprite.speech.version) := by
          rw [perform_eq, performed, hclear]
          rfl
        refine Or.inr (Or.inr ⟨⟨after s.now ms, s.agenda.nextSeq,
          .clear .speech (s.performed action).sprite.speech.version⟩, ?_, by rw [hsprite]⟩)
        rw [hagenda]
        exact Agenda.mem_schedule.2 (Or.inl rfl)

theorem reset (s : Stage) : Tended s s.reset.1 := of_silent rfl

/-- The clearing of the bubble hides it, and any other clearing leaves it and its own alone. -/
theorem fireClear {entry : Appointment} {rest : List Appointment} {cell : Cell} {version : Nat}
    (hentries : s.agenda.entries = entry :: rest) (htimer : entry.timer = .clear cell version) :
    Tended s ((s.arrive entry rest).fireClear cell version).1 := by
  have hothers : entry.timer ≠ .clear .speech s.sprite.speech.version →
      ∀ e, s.IsExpiry e → e ∈ rest := by
    rintro hother e ⟨he, hexpiry⟩
    rw [hentries] at he
    rcases List.mem_cons.1 he with rfl | he
    · exact absurd hexpiry hother
    · exact he
  unfold Stage.fireClear
  split
  · cases cell with
    | speech => exact of_silent rfl
    | glide => exact Or.inl ⟨rfl, hothers (by rw [htimer]; exact nofun)⟩
  · rename_i hstale
    refine Or.inl ⟨rfl, hothers fun hexpiry => hstale (Or.inl ?_)⟩
    rw [htimer] at hexpiry
    obtain ⟨rfl, rfl⟩ := Timer.clear.inj hexpiry
    rfl

end Tended

section Moves

variable {s s' : Stage}

theorem Moves.tended {events : List StageEvent} {started : List Announcement}
    (m : Moves s events started s') :
    Tended s s' ∨ (s.history.memories ≠ [] ∧ s' = s.undo.1) :=
  (m.cells_cases (P := Tended s) (fun hsame h => h.trans (.of_same hsame))
    (fun action h => h.trans (.perform _ action)) (fun h => h.trans (.reset _))
    (fun hentries htimer h => h.trans (.fireClear hentries htimer))).imp_left fun h => h (.refl s)

/-- Every operation but an undo that puts something back tends the bubble. -/
theorem operate?_tended {operation : Operation} {answer : Except StageError (List StageEvent)}
    (h : s.operate? operation = some (s', answer)) :
    Tended s s' ∨ (s.history.memories ≠ [] ∧ s' = s.undo.1) := by
  cases hwait : operation.isWait with
  | true =>
      refine Or.inl (passing_induction (P := Tended s) ?_ ?_ hwait h (.refl s))
      · intro x entry rest hentries hx
        exact fire_cells (fun hsame h => h.trans (.of_same hsame))
          (fun action h => h.trans (.perform _ action))
          (fun hentries htimer h => h.trans (.fireClear hentries htimer)) hentries hx
      · exact fun _ _ hx => hx.trans (.of_same (.of_eq rfl rfl))
  | false =>
      cases operation with
      | load program =>
          cases h
          refine Or.inl ?_
          have hreplaced : Tended s { s with program } := .of_same (.of_eq rfl rfl)
          unfold load
          cases program.clicked with
          | none => exact hreplaced
          | some action => exact hreplaced.trans (.perform _ action)
      | input input =>
          cases answer with
          | error e => exact Or.inl (eq_of_refused (Option.some.inj h) ▸ .refl s)
          | ok events => exact (moves_of_handle (Option.some.inj h)).tended
      | tick _ | advanceTo _ | settle => cases hwait

theorem version_lt_undo (h : s.history.memories ≠ []) :
    s.sprite.speech.version < s.undo.1.sprite.speech.version := by
  rcases s.undo_cases with ⟨hnone, -⟩ | ⟨newest, rest, -, heq⟩
  · exact absurd hnone h
  · rw [heq]
    exact Nat.lt_succ_self _

/-- Whatever is done, a bubble is left alone with its clearing until it is written again. -/
theorem operateAll?_expiry {e : Appointment} (he : s.IsExpiry e) {ops : List Operation}
    {records : List Record} (h : s.operateAll? ops = some (s', records)) :
    (s'.sprite.speech = s.sprite.speech ∧ s'.IsExpiry e) ∨
      s.sprite.speech.version < s'.sprite.speech.version := by
  refine operateAll?_induction (P := fun x => (x.sprite.speech = s.sprite.speech ∧ x.IsExpiry e) ∨
    s.sprite.speech.version < x.sprite.speech.version) ?_ h (Or.inl ⟨rfl, he⟩)
  intro operation _ x x' answer hx hop
  rcases operate?_tended hop with (⟨hspeech, hkept⟩ | ⟨hversion, -⟩) | ⟨hmemories, rfl⟩
  · rcases hx with ⟨hsame, hexpiry⟩ | hlt
    · exact Or.inl ⟨hspeech.trans hsame, hkept e hexpiry, by rw [hspeech]; exact hexpiry.2⟩
    · exact Or.inr (hspeech ▸ hlt)
  · rcases hx with ⟨hsame, -⟩ | hlt
    · exact Or.inr (hsame ▸ hversion)
    · exact Or.inr (Nat.lt_trans hlt hversion)
  · have hversion := version_lt_undo hmemories
    rcases hx with ⟨hsame, -⟩ | hlt
    · exact Or.inr (hsame ▸ hversion)
    · exact Or.inr (Nat.lt_trans hlt hversion)

end Moves

end Stage

/-! ## Durations -/

/-- Delays are read in whole seconds. -/
theorem Descriptor.dvd_of_delayMs {d : Descriptor} {parameter : String} {ms : Nat}
    (h : d.delayMs parameter = .ok ms) : 1000 ∣ ms := by
  unfold delayMs at h
  cases hseconds : d.integer parameter with
  | error e =>
      rw [hseconds] at h
      cases h
  | ok seconds =>
      rw [hseconds] at h
      simp only [bind, Except.bind] at h
      split at h
      · cases h
      · exact ⟨_, (Except.ok.inj h).symm⟩

/-- The timeout of a bubble that is described in a script is a number of whole seconds. -/
theorem Action.dvd_of_ofDescriptor {d : Descriptor} {message : String} {bubble : Bubble} {ms : Nat}
    (h : Action.ofDescriptor d = .ok (.speak message bubble (some ms))) : 1000 ∣ ms := by
  unfold ofDescriptor at h
  cases htrigger : Trigger.ofName? d.name with
  | some event => simp [htrigger] at h
  | none =>
      simp only [htrigger, bind, Except.bind, pure, Except.pure] at h
      repeat' split at h
      all_goals try (cases h; done)
      -- what is left are the two kinds of bubbles with a delay
      all_goals
        rename_i hdelay
        cases h
        exact Descriptor.dvd_of_delayMs hdelay

/-! ## Bubbles that stay -/

/-- On every stage that can be reached the bubble is attended, unless an undo has put it back. -/
theorem Reachable.attended {s : Stage} (h : Reachable s) : s.Attended ∨ s.PutBack := by
  induction h with
  | new hnew =>
      obtain ⟨-, program, generator, -, rfl⟩ := hnew
      exact Or.inl (Stage.attended_of_silent rfl)
  | @operate s s' operation answer hs hop ih =>
      rcases Stage.operate?_tended hop with htended | ⟨hmemories, rfl⟩
      · rcases ih with hattended | ⟨before, ops, records, hbefore, hmemories, hops, hspeech⟩
        · exact Or.inl (htended.attended hattended)
        · rcases htended with ⟨hsame, -⟩ | ⟨-, hattended⟩
          · exact Or.inr ⟨before, _, _, hbefore, hmemories, Stage.operateAll?_concat hops hop,
              hsame.trans hspeech⟩
          · exact Or.inl hattended
      · exact Or.inr ⟨s, [], [], hs, hmemories, rfl, rfl⟩

/-- When a bubble's clearing is overdue the bubble was written again. -/
theorem Reachable.version_lt_of_advanceTo? {s s' : Stage} (h : Reachable s) {e : Appointment}
    (he : s.IsExpiry e) {target : Instant} {events : List StageEvent} (hdue : e.due ≤ target)
    (hadvance : s.advanceTo? target = some (s', events)) :
    s.sprite.speech.version < s'.sprite.speech.version := by
  have hops : s.operateAll? [.advanceTo target]
      = some (s', [⟨.advanceTo target, s'.now, .ok events⟩]) := by
    refine Stage.operateAll?_cons_eq_some.2 ⟨s', .ok events, [], ?_, rfl, rfl⟩
    rw [Stage.operate?, hadvance]
    rfl
  rcases Stage.operateAll?_expiry he hops with ⟨-, hexpiry⟩ | hlt
  · -- nothing that is due by the target is left, and the clearing is
    have hlater := h.lt_due_of_advanceTo? hadvance e hexpiry.1
    have hlast := (h.timely.due e he.1).2
    exact absurd hlater (Nat.not_lt.2 (Nat.le_min.2 ⟨hdue, hlast⟩))
  · exact hlt

/-- On every stage that can be reached and is settled, the bubble is hidden or has no timeout,
    unless an undo has put it back and it was not written since. Whenever a bubble with a timeout is
    shown that was not put back in this way, there is an entry in the agenda that clears it:
    whatever is done, the entry stays there as long as the bubble is not written again, which it is
    once the clock is past the instant of the entry, and once time was let pass until that instant.
    The timeouts that come from descriptors are whole seconds. -/
theorem Reachable.timed_bubble_expires {s : Stage} (h : Reachable s) :
    (s.isSettled = true → s.sprite.speech.value.durationMs = 0 ∨
      s.sprite.speech.value.durationMs = Speech.untimedMs ∨ s.PutBack) ∧
    (s.sprite.speech.value.isVisible = true → s.sprite.speech.value.durationMs ≠ Speech.untimedMs →
      s.PutBack ∨ ∃ e, s.IsExpiry e ∧
        (∀ ops s' records, s.operateAll? ops = some (s', records) →
          (s'.sprite.speech = s.sprite.speech ∧ s'.IsExpiry e ∧ s'.now ≤ e.due) ∨
            s.sprite.speech.version < s'.sprite.speech.version) ∧
        ∀ target s' events, e.due ≤ target → s.advanceTo? target = some (s', events) →
          s.sprite.speech.version < s'.sprite.speech.version) ∧
    ∀ d message bubble ms, Action.ofDescriptor d = .ok (.speak message bubble (some ms)) →
      1000 ∣ ms := by
  refine ⟨fun hsettled => ?_, fun hvisible htimed => ?_, fun d message bubble ms hd =>
    Action.dvd_of_ofDescriptor hd⟩
  · rcases h.attended with (hhidden | huntimed | ⟨e, he, htimer⟩) | hback
    · exact Or.inl hhidden
    · exact Or.inr (Or.inl huntimed)
    · -- a clearing that is scheduled is something to come
      have htick := Stage.isSettled_iff.1 hsettled e he
      rw [htimer] at htick
      cases htick
    · exact Or.inr (Or.inr hback)
  · rcases h.attended with (hhidden | huntimed | ⟨e, he⟩) | hback
    · rw [Speech.isVisible, hhidden] at hvisible
      cases hvisible
    · exact absurd huntimed htimed
    · refine Or.inr ⟨e, he, fun ops s' records hops => ?_, fun target s' events hdue hadvance =>
        h.version_lt_of_advanceTo? he hdue hadvance⟩
      rcases Stage.operateAll?_expiry he hops with ⟨hspeech, hexpiry⟩ | hlt
      · exact Or.inl ⟨hspeech, hexpiry, ((h.operateAll hops).timely.due e hexpiry.1).1⟩
      · exact Or.inr hlt
    · exact Or.inl hback

/-- A click on the sprite shows a bubble for a second. -/
theorem timed_bubble_of_click :
    let start := Stage.new ⟨[[.trigger .spriteClicked, .speak "hi" .say (some 1000)]], none⟩
    let s := (start.dispatch (.trigger .spriteClicked)).1
    Reachable s ∧ s.sprite.speech.value = ⟨"hi", 1000, false⟩ ∧
      (s.PutBack ∨ ∃ e, s.IsExpiry e) := by
  intro start s
  have hstart : Reachable start := .new (Stage.isNew_new _)
  have hreachable : Reachable s := hstart.handle .spriteClicked rfl
  have hspeech : s.sprite.speech.value = ⟨"hi", 1000, false⟩ := by decide
  obtain ⟨-, hshown, -⟩ := hreachable.timed_bubble_expires
  have hexpires := hshown (by rw [hspeech]; decide) (by rw [hspeech]; decide)
  exact ⟨hreachable, hspeech, hexpires.imp_right fun ⟨e, he, _⟩ => ⟨e, he⟩⟩

/-- A bubble that was shown for a second when the sprite was clicked again is put back by an undo
    and stays for ever: the stage is settled, and the bubble is neither hidden nor untimed. -/
theorem timed_bubble_left_behind :
    let draft : Draft := ⟨[[.bare "sprite_clicked", ⟨"say_for_seconds",
      ⟨.object [("delay", .number (.int 1)), ("message", .string "hi")], by decide⟩⟩]], none⟩
    ∃ program s records, Program.ofDraft draft = .ok program ∧
      (Stage.new program).operateAll?
        [.input .spriteClicked, .input .spriteClicked, .input .undo, .settle] = some (s, records) ∧
      Reachable s ∧ s.isSettled = true ∧ s.sprite.speech.value = ⟨"hi", 1000, false⟩ := by
  intro draft
  let program : Program := ⟨[[.trigger .spriteClicked, .speak "hi" .say (some 1000)]], none⟩
  have hprogram : Program.ofDraft draft = .ok program := by rfl
  have hrun : ((Stage.new program).operateAll?
      [.input .spriteClicked, .input .spriteClicked, .input .undo, .settle]).map
        (fun last => (last.1.isSettled, last.1.sprite.speech.value))
          = some (true, ⟨"hi", 1000, false⟩) := by decide +kernel
  obtain ⟨⟨s, records⟩, hops, hlast⟩ := Option.map_eq_some_iff.1 hrun
  obtain ⟨hsettled, hspeech⟩ := Prod.mk.inj hlast
  have hnew : Reachable (Stage.new program) := .new (Stage.isNew_new _)
  exact ⟨program, s, records, hprogram, hops, hnew.operateAll hops, hsettled, hspeech⟩

end SpriteStage

import SpriteStage.Proofs.Chronicle
import SpriteStage.Proofs.Settling
import SpriteStage.Proofs.Timekeeping
set_option autoImplicit false

/-! # What becomes of a clearing

An action that fills a cell for a limited time asks for a clearing, an entry of its own in the
agenda (`Happening.Asks`). `Fate` says what becomes of it in the deeds that follow. It is pending
until it fires, just when it is due, unless stale clearings are dropped and a reset takes it away
first. When it fires it empties the cell if the cell is still as the action left it, or if stale
timers fire; otherwise it is dropped. Every deed keeps this (`Fate.seen`), so it holds throughout
(`Chronicle.fate`).

Which operations make a clearing fire can be told beforehand: those that let time pass until the
instant at which it is due (`Operation.Reaches`). -/

namespace SpriteStage

/-! ## Asking for a clearing -/

/-- A deed asks for an entry: the clearing of what it has just written, when its time is over. -/
def Happening.Asks (h : Happening) (cell : Cell) (e : Appointment) : Prop :=
  ∃ action place ms, h.deed = .act action place ∧ action.fills? = some (cell, ms) ∧
    e = ⟨SpriteStage.after h.before.now ms, h.before.agenda.nextSeq,
      .clear cell (h.after.sprite.version cell)⟩

theorem Happening.Asks.timer_eq {h : Happening} {cell : Cell} {e : Appointment}
    (hasks : h.Asks cell e) : e.timer = .clear cell (h.after.sprite.version cell) := by
  obtain ⟨action, place, ms, -, -, rfl⟩ := hasks
  rfl

/-- An entry is over: it is not in the agenda, and its number is not given again. -/
structure Stage.Over (s : Stage) (e : Appointment) : Prop where
  gone : e ∉ s.agenda.entries
  seq_lt : e.seq < s.agenda.nextSeq

namespace Stage

/-- An action schedules the clearing of the cell that it fills, if it fills one for a time. -/
theorem agenda_perform (s : Stage) (action : Action) :
    (s.perform action).agenda = action.fills?.elim s.agenda fun (cell, ms) =>
      s.agenda.schedule (after s.now ms)
        (.clear cell ((s.perform action).sprite.version cell)) := by
  have hclear : (s.performed action).clear = action.fills?.map fun (cell, ms) =>
      ⟨cell, ms, (s.performed action).sprite.version cell⟩ := action.clear_eq _ _ _ _
  rw [perform_sprite, perform_eq, hclear]
  cases action.fills? <;> rfl

/-- An undo leaves the clearings alone. -/
theorem mem_undo {s : Stage} {e : Appointment} (hclear : e.timer.isClear = true) :
    e ∈ s.undo.1.agenda.entries ↔ e ∈ s.agenda.entries := by
  rcases s.undo_agenda with hagenda | hagenda
  · rw [hagenda, Agenda.mem_cancel]
    exact and_iff_left (Timer.isStep_of_isClear hclear)
  · rw [hagenda]

end Stage

namespace Happening.Done

variable {h : Happening} {events : List StageEvent} {e : Appointment} {cell : Cell}

/-- What a deed asks for is in the agenda behind it. -/
theorem mem_of_asks (hd : h.Done events) (hasks : h.Asks cell e) :
    e ∈ h.after.agenda.entries := by
  obtain ⟨action, place, ms, hdeed, hfills, rfl⟩ := hasks
  cases hd with
  | act s action' place' =>
      obtain ⟨rfl, rfl⟩ := Deed.act.inj hdeed
      rw [Stage.agenda_perform, hfills]
      exact Agenda.mem_schedule.2 (Or.inl rfl)
  | undo _ | reset _ | clear _ _ _ => cases hdeed

/-- A clearing in the agenda was there before the deed, or the deed has asked for it. -/
theorem mem_before (hd : h.Done events) (hclear : e.timer.isClear = true)
    (he : e ∈ h.after.agenda.entries) : e ∈ h.before.agenda.entries ∨ ∃ cell, h.Asks cell e := by
  cases hd with
  | act s action place =>
      rw [Stage.agenda_perform] at he
      cases hfills : action.fills? with
      | none =>
          rw [hfills] at he
          exact Or.inl he
      | some filled =>
          obtain ⟨cell, ms⟩ := filled
          rw [hfills] at he
          rcases Agenda.mem_schedule.1 he with rfl | he
          · exact Or.inr ⟨cell, action, place, ms, rfl, hfills, rfl⟩
          · exact Or.inl he
  | undo _ => exact Or.inl ((Stage.mem_undo hclear).1 he)
  | reset s =>
      rcases s.reset_agenda with hagenda | hagenda
      · rw [hagenda] at he
        exact Or.inl (Agenda.mem_cancel.1 (Agenda.mem_cancel.1 he).1).1
      · rw [hagenda] at he
        exact Or.inl (Agenda.mem_cancel.1 he).1
  | clear hentries _ hevent =>
      rw [hentries]
      refine Or.inl (List.mem_cons_of_mem _ ?_)
      rcases Stage.fireClear_event hevent with ⟨-, heq, -⟩ | ⟨-, heq, -⟩ <;> rwa [heq] at he

/-- A clearing stays in the agenda, unless it fires, or is taken away by a reset. -/
theorem mem_after (hd : h.Done events) (hclear : e.timer.isClear = true)
    (he : e ∈ h.before.agenda.entries) (hunfired : h.deed ≠ .clear e)
    (hunreset : h.before.config.stalePolicy = .drop → h.deed ≠ .reset) :
    e ∈ h.after.agenda.entries := by
  cases hd with
  | act s action place =>
      rw [Stage.agenda_perform]
      cases hfills : action.fills? with
      | none => exact he
      | some filled => exact Agenda.mem_schedule.2 (Or.inr he)
  | undo _ => exact (Stage.mem_undo hclear).2 he
  | reset s =>
      have hagenda : s.reset.1.agenda = s.cancelRuns.1.agenda := by
        have hpolicy : ¬ s.config.stalePolicy = .drop := fun hdrop => hunreset hdrop rfl
        simp [Stage.reset, Stage.cancelRuns, hpolicy]
      rw [hagenda]
      exact Agenda.mem_cancel.2 ⟨he, Timer.isStep_of_isClear hclear⟩
  | clear hentries _ hevent =>
      have hrest := he
      rw [hentries] at hrest
      rcases List.mem_cons.1 hrest with rfl | hrest
      · exact absurd rfl hunfired
      · rcases Stage.fireClear_event hevent with ⟨-, heq, -⟩ | ⟨-, heq, -⟩ <;> rwa [heq]

/-- What a reset takes away, unless stale timers fire. -/
theorem not_mem_of_reset (hd : h.Done events) (hclear : e.timer.isClear = true)
    (hdrop : h.before.config.stalePolicy = .drop) (hreset : h.deed = .reset) :
    e ∉ h.after.agenda.entries := by
  cases hd with
  | act _ _ _ | undo _ | clear _ _ _ => cases hreset
  | reset s =>
      have hagenda : s.reset.1.agenda = s.cancelRuns.1.agenda.cancel Timer.isClear := by
        have hpolicy : s.config.stalePolicy = .drop := hdrop
        simp [Stage.reset, Stage.cancelRuns, hpolicy]
      intro he
      rw [hagenda] at he
      rw [(Agenda.mem_cancel.1 he).2] at hclear
      cases hclear

/-- A clearing that fires was the first in the agenda and is so no more, and the clock stands at the
    instant at which it is due. -/
theorem fired (hd : h.Done events) (ht : Timely h.before) (hdeed : h.deed = .clear e) :
    e ∈ h.before.agenda.entries ∧ e ∉ h.after.agenda.entries ∧ h.after.now = e.due := by
  cases hd with
  | act _ _ _ | undo _ | reset _ => cases hdeed
  | clear hentries _ hevent =>
      obtain rfl := Deed.clear.inj hdeed
      have honce := ht.ordered.first_not_mem hentries
      have hnow := ht.now_arrive hentries
      refine ⟨hentries ▸ List.mem_cons_self, ?_⟩
      rcases Stage.fireClear_event hevent with ⟨-, heq, -⟩ | ⟨-, heq, -⟩ <;> rw [heq] <;>
        exact ⟨honce, hnow⟩

theorem event_of_reset (hd : h.Done events) (hreset : h.deed = .reset) : h.event = .reset := by
  cases hd with
  | reset _ => rfl
  | act _ _ _ | undo _ | clear _ _ _ => cases hreset

/-- The event of a clearing that fires tells of a timer. -/
theorem isOfTimer (hd : h.Done events) (hdeed : h.deed = .clear e) : h.event.isOfTimer = true := by
  cases hd with
  | act _ _ _ | undo _ | reset _ => cases hdeed
  | clear _ _ hevent => rcases Stage.fireClear_event hevent with ⟨rfl, -⟩ | ⟨rfl, -⟩ <;> rfl

/-- What fires as a clearing is one. -/
theorem isClear (hd : h.Done events) (hdeed : h.deed = .clear e) : e.timer.isClear = true := by
  cases hd with
  | act _ _ _ | undo _ | reset _ => cases hdeed
  | clear _ htimer _ =>
      obtain rfl := Deed.clear.inj hdeed
      rw [htimer]
      rfl

/-- If stale timers fire nothing is dropped. -/
theorem policy_of_stale (hd : h.Done events) {timer : String}
    (hstale : h.event = .staleTimerDropped timer) : h.before.config.stalePolicy = .drop := by
  cases hd with
  | act _ _ place => cases place <;> cases hstale
  | undo _ | reset _ => cases hstale
  | clear _ _ hevent =>
      rcases Stage.fireClear_event hevent with ⟨rfl, -⟩ | ⟨-, -, -, hdrop⟩
      · cases hstale
      · exact hdrop

/-- What a clearing does when it fires. -/
theorem fired_cases (hd : h.Done events) {version : Nat} (htimer : e.timer = .clear cell version)
    (hdeed : h.deed = .clear e) :
    (h.event = .cleared cell ∧ h.after.sprite = h.before.sprite.clear cell ∧
      (version = h.before.sprite.version cell ∨ h.before.config.stalePolicy = .fire)) ∨
    (h.event = .staleTimerDropped e.timer.label ∧ h.after.sprite = h.before.sprite ∧
      version ≠ h.before.sprite.version cell ∧ h.before.config.stalePolicy = .drop) := by
  cases hd with
  | act _ _ _ | undo _ | reset _ => cases hdeed
  | clear hentries htimer' hevent =>
      obtain rfl := Deed.clear.inj hdeed
      obtain ⟨rfl, rfl⟩ := Timer.clear.inj (htimer'.symm.trans htimer)
      rcases Stage.fireClear_event hevent with ⟨rfl, heq, hcurrent⟩ | ⟨rfl, heq, hstale⟩
      · exact Or.inl ⟨rfl, by rw [heq]; rfl, hcurrent⟩
      · exact Or.inr ⟨by rw [htimer], by rw [heq]; rfl, hstale⟩

/-- No deed brings back what is over. -/
theorem stays_over (hd : h.Done events) (hclear : e.timer.isClear = true) (ho : h.before.Over e) :
    h.after.Over e := by
  refine ⟨fun he => ?_, Nat.lt_of_lt_of_le ho.seq_lt hd.nextSeq_le⟩
  rcases hd.mem_before hclear he with he | ⟨cell, action, place, ms, -, -, rfl⟩
  · exact ho.gone he
  · exact Nat.lt_irrefl _ ho.seq_lt

end Happening.Done

theorem Stage.Unseen.stays_over {s s' : Stage} {events : List StageEvent} (h : s.Unseen events s')
    {e : Appointment} (hclear : e.timer.isClear = true) (ho : s.Over e) : s'.Over e :=
  ⟨fun he => ho.gone ((h.cells.clears e hclear).1 he), Nat.lt_of_lt_of_le ho.seq_lt h.nextSeq_le⟩

/-! ## A cell since a deed -/

/-- A cell is as a deed left it if none of the later deeds has written it, and otherwise its version
    has risen. -/
structure CellSince (a : Happening) (cell : Cell) (later : List Happening) (s : Stage) : Prop where
  agreeOn : (∀ h ∈ later, ¬ h.Writes cell) → a.after.sprite.AgreeOn s.sprite cell
  version_lt : ∀ h ∈ later, h.Writes cell →
    a.after.sprite.version cell < s.sprite.version cell

namespace CellSince

variable {a h : Happening} {cell : Cell} {later : List Happening} {s s' : Stage}
  {events : List StageEvent}

theorem refl (a : Happening) (cell : Cell) : CellSince a cell [] a.after :=
  ⟨fun _ => .refl _ _, fun _ hmem => absurd hmem List.not_mem_nil⟩

theorem version_le (hs : CellSince a cell later s) :
    a.after.sprite.version cell ≤ s.sprite.version cell := by
  by_cases hwritten : ∃ h ∈ later, h.Writes cell
  · obtain ⟨h, hmem, hwrites⟩ := hwritten
    exact Nat.le_of_lt (hs.version_lt h hmem hwrites)
  · have hsame := hs.agreeOn fun h hmem hwrites => hwritten ⟨h, hmem, hwrites⟩
    exact Nat.le_of_eq hsame.version_eq.symm

theorem unseen (hs : CellSince a cell later s) (still : s.Unseen events s') :
    CellSince a cell later s' := by
  refine ⟨?_, ?_⟩
  · rw [still.cells.sprite]
    exact hs.agreeOn
  · rw [still.cells.sprite]
    exact hs.version_lt

theorem seen (hs : CellSince a cell later h.before) (hd : h.Done events) :
    CellSince a cell (later ++ [h]) h.after := by
  refine ⟨fun hnone => ?_, fun w hw hwrites => ?_⟩
  · obtain ⟨hearlier, hlast⟩ := List.forall_mem_append.1 hnone
    exact (hs.agreeOn hearlier).trans (hd.agreeOn (hlast h List.mem_cons_self))
  · by_cases hlast : h.Writes cell
    · exact Nat.lt_of_le_of_lt hs.version_le (hd.version_lt hlast)
    · rw [(hd.agreeOn hlast).version_eq]
      rcases List.mem_append.1 hw with hw | hw
      · exact hs.version_lt w hw hwrites
      · rw [List.mem_singleton.1 hw] at hwrites
        exact absurd hwrites hlast

end CellSince

/-! ## Fates -/

/-- What a clearing does when it fires: it empties its cell if stale timers fire, or if none of the
    deeds in between has written the cell, which then is as the deed left it that asked for the
    clearing. Otherwise it is dropped and the sprite stays as it is. -/
structure Outcome (policy : StalePolicy) (a : Happening) (cell : Cell) (e : Appointment)
    (between : List Happening) (h : Happening) : Prop where
  clears : (policy = .fire ∨ ∀ w ∈ between, ¬ w.Writes cell) →
    h.event = .cleared cell ∧ h.after.sprite = h.before.sprite.clear cell
  own : (∀ w ∈ between, ¬ w.Writes cell) → a.after.sprite.AgreeOn h.before.sprite cell
  drops : policy = .drop → ∀ w ∈ between, w.Writes cell →
    h.event = .staleTimerDropped e.timer.label ∧ h.after.sprite = h.before.sprite

/-- What has become of the clearing that a deed has asked for, in the deeds that followed. -/
inductive Fate (policy : StalePolicy) (a : Happening) (cell : Cell) (e : Appointment) :
    List Happening → Stage → Prop
  /-- It stands in the agenda. -/
  | pending {later : List Happening} {s : Stage} (mem : e ∈ s.agenda.entries)
      (now_le : s.now ≤ e.due) (unfired : ∀ x ∈ later, x.deed ≠ .clear e)
      (unreset : policy = .drop → ∀ x ∈ later, x.deed ≠ .reset) : Fate policy a cell e later s
  /-- A reset has taken it away. -/
  | removed {between rest : List Happening} {h : Happening} {s : Stage} (drop : policy = .drop)
      (reset : h.deed = .reset) (mem : e ∈ h.before.agenda.entries)
      (unfired : ∀ x ∈ between ++ h :: rest, x.deed ≠ .clear e) (ended : s.Over e) :
      Fate policy a cell e (between ++ h :: rest) s
  /-- It has fired, once and just when it was due. -/
  | fired {between rest : List Happening} {h : Happening} {s : Stage} (deed : h.deed = .clear e)
      (mem : e ∈ h.before.agenda.entries) (now : h.after.now = e.due)
      (once : ∀ x ∈ between ++ rest, x.deed ≠ .clear e)
      (unreset : policy = .drop → ∀ x ∈ between, x.deed ≠ .reset)
      (outcome : Outcome policy a cell e between h) (ended : s.Over e) :
      Fate policy a cell e (between ++ h :: rest) s

section Fate

variable {policy : StalePolicy} {a h : Happening} {cell : Cell} {e : Appointment}
  {later : List Happening} {s s' : Stage} {events : List StageEvent}

/-- What is over does not fire. -/
theorem Happening.Done.deed_ne_clear (hd : h.Done events) (ht : Timely h.before)
    (ho : h.before.Over e) : h.deed ≠ .clear e :=
  fun hdeed => ho.gone (hd.fired ht hdeed).1

/-- The outcome is as the versions tell: the clearing carries the version of the write that asked
    for it. -/
theorem Happening.Done.outcome (hd : h.Done events) (hdeed : h.deed = .clear e)
    (htimer : e.timer = .clear cell (a.after.sprite.version cell))
    (hpolicy : h.before.config.stalePolicy = policy) (hsince : CellSince a cell later h.before) :
    Outcome policy a cell e later h := by
  rcases hd.fired_cases htimer hdeed with ⟨hevent, hsprite, hcurrent⟩ |
    ⟨hevent, hsprite, hstale, hdrop⟩
  · refine ⟨fun _ => ⟨hevent, hsprite⟩, hsince.agreeOn, fun hdrop w hw hwrites => ?_⟩
    rcases hcurrent with hcurrent | hfires
    · exact absurd hcurrent (Nat.ne_of_lt (hsince.version_lt w hw hwrites))
    · rw [← hpolicy, hfires] at hdrop
      cases hdrop
  · refine ⟨?_, hsince.agreeOn, fun _ _ _ _ => ⟨hevent, hsprite⟩⟩
    rintro (hfires | hnone)
    · rw [← hpolicy, hdrop] at hfires
      cases hfires
    · exact absurd (hsince.agreeOn hnone).version_eq.symm hstale

namespace Fate

theorem unseen (hf : Fate policy a cell e later s) (hclear : e.timer.isClear = true)
    (ht : Timely s) (still : s.Unseen events s') : Fate policy a cell e later s' := by
  cases hf with
  | pending mem now_le unfired unreset =>
      have hmem := (still.cells.clears e hclear).2 mem
      exact .pending hmem ((still.timely ht).due e hmem).1 unfired unreset
  | removed drop reset mem unfired ended =>
      exact .removed drop reset mem unfired (still.stays_over hclear ended)
  | fired deed mem now once unreset outcome ended =>
      exact .fired deed mem now once unreset outcome (still.stays_over hclear ended)

/-- A pending clearing fires with the next deed, or is taken away by it, or stays pending. -/
theorem seen_of_mem (mem : e ∈ h.before.agenda.entries)
    (unfired : ∀ x ∈ later, x.deed ≠ .clear e)
    (unreset : policy = .drop → ∀ x ∈ later, x.deed ≠ .reset)
    (hpolicy : h.before.config.stalePolicy = policy)
    (htimer : e.timer = .clear cell (a.after.sprite.version cell))
    (hsince : CellSince a cell later h.before) (ht : Timely h.before) (hd : h.Done events) :
    Fate policy a cell e (later ++ [h]) h.after := by
  have hclear : e.timer.isClear = true := by rw [htimer]; rfl
  have hseq : e.seq < h.after.agenda.nextSeq :=
    Nat.lt_of_lt_of_le (ht.ordered.numbered e mem) hd.nextSeq_le
  by_cases hfires : h.deed = .clear e
  · obtain ⟨-, hgone, hnow⟩ := hd.fired ht hfires
    refine .fired hfires mem hnow ?_ unreset (hd.outcome hfires htimer hpolicy hsince) ⟨hgone, hseq⟩
    rwa [List.append_nil]
  · have hunfired : ∀ x ∈ later ++ [h], x.deed ≠ .clear e :=
      List.forall_mem_append.2 ⟨unfired, List.forall_mem_singleton.2 hfires⟩
    by_cases hremoved : policy = .drop ∧ h.deed = .reset
    · obtain ⟨hdrop, hreset⟩ := hremoved
      have hgone := hd.not_mem_of_reset hclear (hpolicy.trans hdrop) hreset
      exact .removed hdrop hreset mem hunfired ⟨hgone, hseq⟩
    · have hunreset : policy = .drop → h.deed ≠ .reset := fun hdrop hreset =>
        hremoved ⟨hdrop, hreset⟩
      have hmem := hd.mem_after hclear mem hfires (hpolicy ▸ hunreset)
      refine .pending hmem ((hd.timely ht).due e hmem).1 hunfired fun hdrop => ?_
      exact List.forall_mem_append.2
        ⟨unreset hdrop, List.forall_mem_singleton.2 (hunreset hdrop)⟩

theorem seen (hf : Fate policy a cell e later h.before)
    (hpolicy : h.before.config.stalePolicy = policy)
    (htimer : e.timer = .clear cell (a.after.sprite.version cell))
    (hsince : CellSince a cell later h.before) (ht : Timely h.before) (hd : h.Done events) :
    Fate policy a cell e (later ++ [h]) h.after := by
  have hclear : e.timer.isClear = true := by rw [htimer]; rfl
  cases hf with
  | pending mem _ unfired unreset =>
      exact seen_of_mem mem unfired unreset hpolicy htimer hsince ht hd
  | removed drop reset mem unfired ended =>
      have hnot := hd.deed_ne_clear ht ended
      rw [List.append_assoc, List.cons_append]
      refine .removed drop reset mem ?_ (hd.stays_over hclear ended)
      rw [← List.cons_append, ← List.append_assoc]
      exact List.forall_mem_append.2 ⟨unfired, List.forall_mem_singleton.2 hnot⟩
  | fired deed mem now once unreset outcome ended =>
      have hnot := hd.deed_ne_clear ht ended
      rw [List.append_assoc, List.cons_append]
      refine .fired deed mem now ?_ unreset outcome (hd.stays_over hclear ended)
      rw [← List.append_assoc]
      exact List.forall_mem_append.2 ⟨once, List.forall_mem_singleton.2 hnot⟩

end Fate

end Fate

/-! ## Throughout a row of deeds -/

section Rows

variable {config : StageConfig} {a h : Happening} {cell : Cell} {e : Appointment}
  {s s' : Stage} {log : List TimedEvent} {row earlier later : List Happening}

theorem Stage.Deeds.cellSince (hdeeds : a.after.Deeds log later s) (ht : Timely a.after) :
    CellSince a cell later s :=
  hdeeds.induction (P := fun x row => CellSince a cell row x) (.refl a cell)
    (fun hsince _ still => hsince.unseen still) (fun hsince _ hd => hsince.seen hd) ht

/-- The clearing that a deed asks for has one of the fates in any row of deeds behind it. -/
theorem Stage.Deeds.fate {events : List StageEvent} (hdeeds : a.after.Deeds log later s)
    (hd : a.Done events) (ht : Timely a.before) (hasks : a.Asks cell e) :
    Fate a.before.config.stalePolicy a cell e later s := by
  have htimer := hasks.timer_eq
  have hclear : e.timer.isClear = true := by rw [htimer]; rfl
  have hmem := hd.mem_of_asks hasks
  have htimely := hd.timely ht
  refine (hdeeds.induction (P := fun x row => x.config = a.before.config ∧ CellSince a cell row x ∧
    Fate a.before.config.stalePolicy a cell e row x) ⟨hd.config_eq, .refl a cell, ?_⟩ ?_ ?_
      htimely).2.2
  · exact .pending hmem (htimely.due e hmem).1 (fun _ hnone => absurd hnone List.not_mem_nil)
      fun _ _ hnone => absurd hnone List.not_mem_nil
  · intro x x' row events ⟨hconfig, hsince, hfate⟩ hx still
    exact ⟨still.config_eq.trans hconfig, hsince.unseen still, hfate.unseen hclear hx still⟩
  · intro h row events ⟨hconfig, hsince, hfate⟩ hx hdone
    exact ⟨hdone.config_eq.trans hconfig, hsince.seen hdone,
      hfate.seen (by rw [hconfig]) htimer hsince hx hdone⟩

theorem Chronicle.cellSince (hc : Chronicle config s log (earlier ++ a :: later)) :
    CellSince a cell later s := by
  obtain ⟨before, events, after, hbefore, hd, hafter⟩ := hc.split
  exact hafter.cellSince (hd.timely hbefore.timely)

theorem Chronicle.fate (hc : Chronicle config s log (earlier ++ a :: later))
    (hasks : a.Asks cell e) : Fate config.stalePolicy a cell e later s := by
  obtain ⟨before, events, after, hbefore, hd, hafter⟩ := hc.split
  rw [← hbefore.config_eq]
  exact hafter.fate hd hbefore.timely hasks

/-- Every clearing in the agenda was asked for. -/
theorem Chronicle.exists_asks (hc : Chronicle config s log row) (he : e ∈ s.agenda.entries)
    (hclear : e.timer.isClear = true) : ∃ a ∈ row, ∃ cell, a.Asks cell e := by
  obtain ⟨start, hnew, hdeeds⟩ := hc
  refine hdeeds.induction
    (P := fun x row => e ∈ x.agenda.entries → ∃ a ∈ row, ∃ cell, a.Asks cell e) ?_
    (fun hx _ still hmem => hx ((still.cells.clears e hclear).1 hmem)) ?_ hnew.timely he
  · obtain ⟨-, program, generator, -, rfl⟩ := hnew
    exact fun hnone => absurd hnone List.not_mem_nil
  · intro h row events hx _ hd hmem
    rcases hd.mem_before hclear hmem with hmem | ⟨cell, hasks⟩
    · obtain ⟨a, ha, hasks⟩ := hx hmem
      exact ⟨a, List.mem_append_left _ ha, hasks⟩
    · exact ⟨h, List.mem_append_right _ List.mem_cons_self, cell, hasks⟩

/-- What is over stays over. -/
theorem Stage.Deeds.stays_over (hdeeds : s.Deeds log row s') (hclear : e.timer.isClear = true)
    (ho : s.Over e) : s'.Over e := by
  induction hdeeds with
  | nil => exact ho
  | unseen still _ ih => exact ih (still.stays_over hclear ho)
  | seen done _ ih => exact ih (done.stays_over hclear ho)

/-- What fires in a row of deeds is not in the agenda at its end. -/
theorem Stage.Deeds.not_mem_of_fired (hdeeds : s.Deeds log row s') (ht : Timely s)
    (hclear : e.timer.isClear = true) (hfired : ∃ h ∈ row, h.deed = .clear e) :
    e ∉ s'.agenda.entries := by
  obtain ⟨h, hmem, hdeed⟩ := hfired
  obtain ⟨earlier, later, rfl⟩ := List.append_of_mem hmem
  obtain ⟨before, events, after, hbefore, hd, hafter⟩ := hdeeds.split
  have htimely := hbefore.timely ht
  obtain ⟨hin, hout, -⟩ := hd.fired htimely hdeed
  have hseq := Nat.lt_of_lt_of_le (htimely.ordered.numbered e hin) hd.nextSeq_le
  exact (hafter.stays_over hclear ⟨hout, hseq⟩).gone

/-- A clearing that goes in a row of deeds has fired, or a reset has taken it away. -/
theorem Stage.Deeds.exists_of_not_mem (hdeeds : s.Deeds log row s') (ht : Timely s)
    (hclear : e.timer.isClear = true) (he : e ∈ s.agenda.entries) (hgone : e ∉ s'.agenda.entries) :
    ∃ h ∈ row, h.deed = .clear e ∨ h.deed = .reset := by
  have hall := hdeeds.induction
    (P := fun x row => e ∈ x.agenda.entries ∨ ∃ h ∈ row, h.deed = .clear e ∨ h.deed = .reset)
    (Or.inl he) (fun hx _ still => hx.imp_left (still.cells.clears e hclear).2) ?_ ht
  · exact hall.resolve_left hgone
  · intro h row events hx _ hd
    rcases hx with hmem | ⟨w, hw, hdeed⟩
    · by_cases hdeed : h.deed = .clear e ∨ h.deed = .reset
      · exact Or.inr ⟨h, List.mem_append_right _ List.mem_cons_self, hdeed⟩
      · obtain ⟨hunfired, hunreset⟩ := not_or.1 hdeed
        exact Or.inl (hd.mem_after hclear hmem hunfired fun _ => hunreset)
    · exact Or.inr ⟨w, List.mem_append_left _ hw, hdeed⟩

end Rows

/-! ## Which operations reach an instant -/

/-- An operation lets time pass until some instant or longer. -/
def Operation.Reaches (operation : Operation) (s : Stage) (instant : Instant) : Prop :=
  match operation with
  | .tick nanoseconds => instant ≤ after s.now (Stage.elapsedMs nanoseconds)
  | .advanceTo target => instant ≤ target
  | .settle => True
  | .load _ | .input _ => False

theorem Operation.isWait_of_reaches {operation : Operation} {s : Stage} {instant : Instant}
    (h : operation.Reaches s instant) : operation.isWait = true := by
  cases operation with
  | load _ | input _ => cases h
  | tick _ | advanceTo _ | settle => rfl

namespace Stage

variable {s s' : Stage} {e : Appointment} {operation : Operation} {events : List StageEvent}
  {answer : Except StageError (List StageEvent)}

/-- What is due later stays. -/
theorem Drains.mem {target : Instant} (h : Drains target s events s') (he : e ∈ s.agenda.entries)
    (hlater : target < e.due) : e ∈ s'.agenda.entries := by
  induction h with
  | done _ => exact he
  | fire hfire _ ih =>
      obtain ⟨entry, rest, hentries, hdue, rfl, -⟩ := exists_of_fireNext? hfire
      refine ih (mem_fire _ ?_)
      rw [hentries] at he
      rcases List.mem_cons.1 he with rfl | he
      · exact absurd hdue (Nat.not_le.2 hlater)
      · exact he

/-- An operation that lets time pass advances to some instant, or settles the stage. -/
theorem wait_cases (hwait : operation.isWait = true)
    (hop : s.operate? operation = some (s', answer)) :
    (∃ target, s.advanceTo? target = some (s', eventsOf answer) ∧
      ∀ instant, operation.Reaches s instant ↔ instant ≤ target) ∨
    (Settles s (eventsOf answer) s' ∧ ∀ instant, operation.Reaches s instant) := by
  cases operation with
  | load _ | input _ => cases hwait
  | tick nanoseconds =>
      obtain ⟨_, htick, rfl⟩ := map_accepted_eq_some.1 hop
      exact Or.inl ⟨_, htick, fun _ => Iff.rfl⟩
  | advanceTo target =>
      obtain ⟨_, hadvance, rfl⟩ := map_accepted_eq_some.1 hop
      exact Or.inl ⟨_, hadvance, fun _ => Iff.rfl⟩
  | settle =>
      obtain ⟨_, hsettle, rfl⟩ := map_accepted_eq_some.1 hop
      exact Or.inr ⟨settles_of_settleWithin hsettle, fun _ => trivial⟩

theorem Settles.isSettled (h : Settles s events s') : s'.isSettled = true := by
  induction h with
  | settled hsettled => exact hsettled
  | advance _ _ _ _ ih => exact ih

end Stage

/-- No clearing is left that was due by then. -/
theorem Reachable.not_reaches {s s' : Stage} {operation : Operation} {e : Appointment}
    {answer : Except StageError (List StageEvent)} (hs : Reachable s)
    (hop : s.operate? operation = some (s', answer))
    (hclear : e.timer.isClear = true) (he : e ∈ s'.agenda.entries) :
    ¬ operation.Reaches s e.due := by
  intro hreaches
  rcases Stage.wait_cases (Operation.isWait_of_reaches hreaches) hop with
    ⟨target, hadvance, hiff⟩ | ⟨hsettles, -⟩
  · have hlast := ((Reachable.operate hs hop).timely.due e he).2
    have hdue := hs.lt_due_of_advanceTo? hadvance e he
    have htarget := (hiff e.due).1 hreaches
    lia
  · have htick := Stage.isSettled_iff.1 hsettles.isSettled e he
    rw [Timer.isDemoTick_of_isClear _ hclear] at htick
    cases htick

/-- What is due after the time that an operation lets pass stays. -/
theorem Stage.mem_of_not_reaches {s s' : Stage} {operation : Operation} {e : Appointment}
    {answer : Except StageError (List StageEvent)} (hwait : operation.isWait = true)
    (hop : s.operate? operation = some (s', answer)) (he : e ∈ s.agenda.entries)
    (hnot : ¬ operation.Reaches s e.due) : e ∈ s'.agenda.entries := by
  rcases wait_cases hwait hop with ⟨target, hadvance, hiff⟩ | ⟨-, hall⟩
  · obtain ⟨mid, hdrains, rfl⟩ := advanceTo?_eq_some hadvance
    have hlater : target < e.due := Nat.not_le.1 fun hreached => hnot ((hiff _).2 hreached)
    exact hdrains.mem he (Nat.lt_of_le_of_lt (Nat.min_le_left _ _) hlater)
  · exact absurd (hall _) hnot

/-- A clearing fires in an operation that lets time pass until it is due, and in no other. -/
theorem Reachable.fires_iff_reaches {s s' : Stage} {operation : Operation}
    {answer : Except StageError (List TimedEvent)} {row : List Happening} {e : Appointment}
    (hs : Reachable s) (hop : s.operateTimed? operation = some (s', answer))
    (hdeeds : s.Deeds (Stage.eventsOf answer) row s') (hclear : e.timer.isClear = true)
    (he : e ∈ s.agenda.entries) :
    (∃ h ∈ row, h.deed = .clear e) ↔ operation.Reaches s e.due := by
  have hop' := Stage.operate?_of_operateTimed? hop
  cases hwait : operation.isWait with
  | false =>
      -- the answer to an input tells of no timer, and so no clearing has fired
      have hstill := Stage.still_answer hwait hop
      refine iff_of_false ?_ ?_
      · rintro ⟨h, hmem, hdeed⟩
        obtain ⟨_, hd⟩ := hdeeds.exists_done hmem
        have htold := hstill h.told (hdeeds.told_mem hmem)
        rw [Happening.told, hd.isOfTimer hdeed] at htold
        cases htold
      · intro hreaches
        rw [Operation.isWait_of_reaches hreaches] at hwait
        cases hwait
  | true =>
      refine ⟨fun hfired => ?_, fun hreaches => ?_⟩
      · have hgone := hdeeds.not_mem_of_fired hs.timely hclear hfired
        exact Classical.byContradiction fun hnot =>
          hgone (Stage.mem_of_not_reaches hwait hop' he hnot)
      · have hgone : e ∉ s'.agenda.entries := fun hmem =>
          hs.not_reaches hop' hclear hmem hreaches
        obtain ⟨h, hmem, hdeed⟩ := hdeeds.exists_of_not_mem hs.timely hclear he hgone
        refine ⟨h, hmem, hdeed.resolve_right fun hreset => ?_⟩
        -- while time passes nothing is reset
        obtain ⟨_, hd⟩ := hdeeds.exists_done hmem
        have htold := Stage.wait_answer hwait hop h.told (hdeeds.told_mem hmem)
        rw [Happening.told, hd.event_of_reset hreset] at htold
        simp [StageEvent.isOfStep, StageEvent.isOfTimer] at htold

/-! ## Every clearing has one fate -/

/-- Every execution has a chronicle, and each deed in it is told by one event. If stale timers fire
    no event says that one was dropped. For every action of a chronicle that fills a cell for a
    limited time, the clearing that it asks for has one of three fates: it is pending; it was taken
    away by a reset, which happens only if stale timers are dropped; or it has fired, once, with the
    clock at the instant at which it was due, and did what `Outcome` says. Nothing fires that was
    not asked for. A clearing that is pending fires in the first operation that lets time pass until
    it is due, and after such an operation no clearing is left that was due by then. -/
theorem Execution.one_fate {config : StageConfig} {s : Stage} {log : List TimedEvent}
    {plans : List Announcement} (h : Execution config s log plans) :
    (∃ row, Chronicle config s log row) ∧
    ∀ row, Chronicle config s log row →
      log.filter (·.event.isOfDeed) = row.map Happening.told ∧
      (config.stalePolicy = .fire → ∀ e ∈ log, ∀ timer, e.event ≠ .staleTimerDropped timer) ∧
      (∀ earlier a later cell e, row = earlier ++ a :: later → a.Asks cell e →
        Fate config.stalePolicy a cell e later s) ∧
      (∀ earlier x later e, row = earlier ++ x :: later → x.deed = .clear e →
        ∃ a ∈ earlier, ∃ cell, a.Asks cell e) ∧
      ∀ operation s' answer more, s.operateTimed? operation = some (s', answer) →
        s.Deeds (Stage.eventsOf answer) more s' →
          (∀ e ∈ s.agenda.entries, e.timer.isClear = true →
            ((∃ x ∈ more, x.deed = .clear e) ↔ operation.Reaches s e.due)) ∧
          ∀ e ∈ s'.agenda.entries, e.timer.isClear = true → ¬ operation.Reaches s e.due := by
  refine ⟨h.exists_chronicle, fun row hc => ⟨hc.told, ?_, ?_, ?_, ?_⟩⟩
  · intro hfire e he timer hstale
    have hmem : e ∈ row.map Happening.told := by
      rw [← hc.told]
      exact List.mem_filter.2 ⟨he, by rw [hstale]; rfl⟩
    obtain ⟨x, hx, rfl⟩ := List.mem_map.1 hmem
    obtain ⟨earlier, later, rfl⟩ := List.append_of_mem hx
    obtain ⟨_, _, _, hbefore, hd, -⟩ := hc.split
    have hdrop := hd.policy_of_stale hstale
    rw [hbefore.config_eq, hfire] at hdrop
    cases hdrop
  · rintro earlier a later cell e rfl hasks
    exact hc.fate hasks
  · rintro earlier x later e rfl hdeed
    obtain ⟨_, _, _, hbefore, hd, -⟩ := hc.split
    obtain ⟨hmem, -⟩ := hd.fired hbefore.timely hdeed
    exact hbefore.exists_asks hmem (hd.isClear hdeed)
  · intro operation s' answer more hop hdeeds
    refine ⟨fun e he hclear => h.reachable.fires_iff_reaches hop hdeeds hclear he,
      fun e he hclear => ?_⟩
    exact h.reachable.not_reaches (Stage.operate?_of_operateTimed? hop) hclear he

/-- A glide for a second asks for the tag to be cleared. Time that passes until then clears it, and
    a millisecond less does not. -/
theorem one_fate_of_glide :
    let start := Stage.new ⟨[[.trigger .spriteClicked, .glide 5 5 1000]], none⟩
    let clicked := start.dispatch (.trigger .spriteClicked)
    let e : Appointment := ⟨1000, 0, .clear .glide 1⟩
    (∃ earlier a later, Chronicle {} clicked.1 (clicked.1.stamp clicked.2) (earlier ++ a :: later) ∧
      ∃ cell, a.Asks cell e ∧ Fate .drop a cell e later clicked.1) ∧
    (∃ early row, clicked.1.operateTimed? (.advanceTo 999) = some (Stage.accepted early) ∧
      clicked.1.Deeds early.2 row early.1 ∧ ¬ ∃ x ∈ row, x.deed = .clear e) ∧
    ∃ late row, clicked.1.operateTimed? (.advanceTo 1000) = some (Stage.accepted late) ∧
      clicked.1.Deeds late.2 row late.1 ∧ ∃ x ∈ row, x.deed = .clear e := by
  intro start clicked e
  have hclick : start.operateTimed? (.input .spriteClicked)
      = some (Stage.accepted (Stage.stamped clicked)) := rfl
  have hexecution : Execution {} clicked.1 (clicked.1.stamp clicked.2) _ :=
    .operate (.new (Stage.isNew_new _)) hclick
  have he : e ∈ clicked.1.agenda.entries := by decide +kernel
  have hadvance : ∀ target, (clicked.1.advanceTimed? target).isSome = true →
      ∃ last row, clicked.1.operateTimed? (.advanceTo target) = some (Stage.accepted last) ∧
        clicked.1.Deeds last.2 row last.1 := by
    intro target hsome
    obtain ⟨last, hlast⟩ := Option.isSome_iff_exists.1 hsome
    have hop : clicked.1.operateTimed? (.advanceTo target) = some (Stage.accepted last) := by
      rw [Stage.operateTimed?, hlast]
      rfl
    obtain ⟨row, hdeeds⟩ := Stage.deeds_of_operateTimed? hop
    exact ⟨last, row, hop, hdeeds⟩
  obtain ⟨⟨row, hrow⟩, hall⟩ := hexecution.one_fate
  obtain ⟨a, ha, cell, hasks⟩ := hrow.exists_asks he rfl
  obtain ⟨earlier, later, rfl⟩ := List.append_of_mem ha
  obtain ⟨-, -, hfates, -, hwaits⟩ := hall _ hrow
  have hfate := hfates earlier a later cell e rfl hasks
  obtain ⟨early, before, hearly, hbefore⟩ := hadvance 999 (by decide +kernel)
  obtain ⟨late, after, hlate, hafter⟩ := hadvance 1000 (by decide +kernel)
  refine ⟨⟨earlier, a, later, hrow, cell, hasks, hfate⟩, ⟨early, before, hearly, hbefore, ?_⟩,
    ⟨late, after, hlate, hafter, ?_⟩⟩
  · rw [(hwaits _ _ _ _ hearly hbefore).1 e he rfl]
    exact Nat.not_le.2 (Nat.lt_succ_self 999)
  · exact ((hwaits _ _ _ _ hlate hafter).1 e he rfl).2 (Nat.le_refl 1000)

end SpriteStage

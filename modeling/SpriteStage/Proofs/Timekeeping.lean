import SpriteStage.Proofs.Draining
import SpriteStage.Proofs.Journal
set_option autoImplicit false

/-! # Timers fire on time

What becomes of the entries of the agenda in the course of an execution. Whatever happens adds
entries with new numbers, and takes away at most those that fire or that an input cancels
(`Agenda.Follows`, `Incident.Punctual`). Numbers are never given again, so an entry that has left
does not come back, and entries fire in the order in which they are due and were scheduled
(`Stage.FiredInOrder`). -/

namespace SpriteStage

/-! ## How an agenda goes on -/

/-- Entries are taken away only if their timers may go, and those that are added have numbers that
    were not given before. -/
structure Agenda.Follows (gone : Timer → Prop) (a b : Agenda) : Prop where
  nextSeq_le : a.nextSeq ≤ b.nextSeq
  kept : ∀ e ∈ a.entries, e ∈ b.entries ∨ gone e.timer
  added : ∀ e ∈ b.entries, e ∈ a.entries ∨ a.nextSeq ≤ e.seq

namespace Agenda.Follows

variable {gone : Timer → Prop} {a b c : Agenda}

theorem refl (gone : Timer → Prop) (a : Agenda) : a.Follows gone a :=
  ⟨Nat.le_refl _, fun _ he => Or.inl he, fun _ he => Or.inl he⟩

theorem trans (h : a.Follows gone b) (h' : b.Follows gone c) : a.Follows gone c where
  nextSeq_le := Nat.le_trans h.nextSeq_le h'.nextSeq_le
  kept e he := by
    rcases h.kept e he with he | hgone
    · exact h'.kept e he
    · exact Or.inr hgone
  added e he := by
    rcases h'.added e he with he | hseq
    · exact h.added e he
    · exact Or.inr (Nat.le_trans h.nextSeq_le hseq)

theorem schedule (gone : Timer → Prop) (a : Agenda) (due : Instant) (timer : Timer) :
    a.Follows gone (a.schedule due timer) where
  nextSeq_le := Nat.le_succ _
  kept _ he := Or.inl (mem_schedule.2 (Or.inr he))
  added e he := by
    rcases mem_schedule.1 he with rfl | he
    · exact Or.inr (Nat.le_refl _)
    · exact Or.inl he

theorem cancel (a : Agenda) {condition : Timer → Bool}
    (hgone : ∀ timer, condition timer = true → gone timer) :
    a.Follows gone (a.cancel condition) where
  nextSeq_le := Nat.le_refl _
  kept e he := by
    cases hcondition : condition e.timer with
    | true => exact Or.inr (hgone _ hcondition)
    | false => exact Or.inl (mem_cancel.2 ⟨he, hcondition⟩)
  added e he := Or.inl (mem_cancel.1 he).1

end Agenda.Follows

namespace Stage

/-! ## What is added -/

section Added

variable (gone : Timer → Prop) (s : Stage)

theorem follows_perform (action : Action) : s.agenda.Follows gone (s.perform action).agenda := by
  rcases s.perform_agenda action with hagenda | ⟨ms, cell, version, hagenda⟩
  · rw [hagenda]
    exact .refl gone _
  · rw [hagenda]
    exact .schedule gone _ _ _

theorem follows_runStep (run : RunId) (index : Nat) :
    s.agenda.Follows gone (s.runStep run index).1.agenda := by
  rcases s.runStep_cases run index with ⟨heq, -⟩ | ⟨r, hi, -, ⟨-, heq⟩ | ⟨-, heq⟩⟩
  · rw [heq]
    exact .refl gone _
  · rw [heq]
    exact (s.follows_perform gone _).trans (.schedule gone _ _ _)
  · rw [heq]
    exact s.follows_perform gone _

theorem follows_firstSteps (ids : List RunId) :
    s.agenda.Follows gone (s.firstSteps ids).1.agenda := by
  induction ids generalizing s with
  | nil => exact .refl gone _
  | cons run rest ih => exact (s.follows_runStep gone run 0).trans (ih _)

theorem follows_dispatch (origin : RunOrigin) :
    s.agenda.Follows gone (s.dispatch origin).1.agenda := by
  cases hplan : s.program.plan origin s.isPlaying with
  | ignore reason =>
      rw [dispatch_of_ignore hplan]
      exact .refl gone _
  | start runs =>
      have hagenda : (s.startAll origin runs).1.agenda = s.agenda := by
        rw [startAll_eq]
      rw [dispatch_of_start hplan, ← hagenda]
      exact follows_firstSteps gone _ _

theorem follows_load (program : Program) : s.agenda.Follows gone (s.load program).1.agenda := by
  unfold load
  cases program.clicked with
  | none => exact .refl gone _
  | some action => exact follows_perform gone { s with program } action

theorem follows_fire (timer : Timer) : s.agenda.Follows gone (s.fire timer).1.agenda := by
  cases timer with
  | step run index => exact s.follows_runStep gone run index
  | clear cell version =>
      rcases s.fireClear_cases cell version with heq | heq <;>
        simpa only [fire, heq] using .refl gone _
  | demoTick session =>
      rcases s.fireDemoTick_cases session with ⟨-, heq⟩ | ⟨-, -, heq⟩
      · simpa only [fire, heq] using .refl gone _
      · simpa only [fire, heq] using .schedule gone _ _ _

/-- Firing takes nothing off the agenda. -/
theorem mem_fire {s : Stage} {e : Appointment} (timer : Timer) (he : e ∈ s.agenda.entries) :
    e ∈ (s.fire timer).1.agenda.entries :=
  ((s.follows_fire (fun _ => False) timer).kept e he).resolve_right id

end Added

/-! ## What is cancelled -/

/-- Which timers an input cancels: a reset the steps, and so does an undo unless stale timers fire;
    a reset the clearings unless stale timers fire; closing the window the ticks of the cats that
    walk. -/
def Cancels (s : Stage) (input : StageInput) : Timer → Prop
  | .step _ _ => input = .reset ∨ input = .undo ∧ s.config.stalePolicy = .drop
  | .clear _ _ => input = .reset ∧ s.config.stalePolicy = .drop
  | .demoTick _ => input = .demoClose ∧ s.demo.isAnimating = true

theorem follows_cancelRuns {gone : Timer → Prop} (s : Stage)
    (hgone : ∀ run index, gone (.step run index)) :
    s.agenda.Follows gone s.cancelRuns.1.agenda := by
  refine .cancel _ fun timer htimer => ?_
  cases timer with
  | step run index => exact hgone run index
  | clear _ _ | demoTick _ => cases htimer

theorem follows_undo (s : Stage) : s.agenda.Follows (s.Cancels .undo) s.undo.1.agenda := by
  rcases s.undo_cases with ⟨-, heq⟩ | ⟨newest, rest, -, heq⟩
  · rw [heq]
    exact .refl _ _
  · rw [heq]
    change s.agenda.Follows _ s.beforeUndo.1.agenda
    unfold beforeUndo
    split
    · rename_i hdrop
      exact s.follows_cancelRuns fun _ _ => Or.inr ⟨rfl, hdrop⟩
    · exact .refl _ _

theorem follows_reset (s : Stage) : s.agenda.Follows (s.Cancels .reset) s.reset.1.agenda := by
  have hruns : s.agenda.Follows (s.Cancels .reset) s.cancelRuns.1.agenda :=
    s.follows_cancelRuns fun _ _ => Or.inl rfl
  by_cases hdrop : s.config.stalePolicy = .drop
  · have hagenda : s.reset.1.agenda = s.cancelRuns.1.agenda.cancel Timer.isClear := by
      simp [reset, cancelRuns, hdrop]
    rw [hagenda]
    refine hruns.trans (.cancel _ fun timer htimer => ?_)
    cases timer with
    | clear cell version => exact ⟨rfl, hdrop⟩
    | step _ _ | demoTick _ => cases htimer
  · have hagenda : s.reset.1.agenda = s.cancelRuns.1.agenda := by
      simp [reset, cancelRuns, hdrop]
    rw [hagenda]
    exact hruns

theorem follows_closeDemo (s : Stage) :
    s.agenda.Follows (s.Cancels .demoClose) s.closeDemo.1.agenda := by
  cases hwalking : s.demo.isAnimating with
  | false => simpa [closeDemo, hwalking] using .refl _ _
  | true =>
      have hagenda : s.closeDemo.1.agenda = s.agenda.cancel Timer.isDemoTick := by
        simp [closeDemo, hwalking]
      rw [hagenda]
      refine .cancel _ fun timer htimer => ?_
      cases timer with
      | demoTick session => exact ⟨rfl, hwalking⟩
      | step _ _ | clear _ _ => cases htimer

theorem Answers.follows {s s' : Stage} {input : StageInput} {events : List StageEvent}
    (ha : s.Answers input s' events) : s.agenda.Follows (s.Cancels input) s'.agenda := by
  cases ha with
  | click _ => exact s.follows_dispatch _ _
  | undo => exact s.follows_undo
  | reset => exact s.follows_reset
  | once _ => exact s.follows_perform _ _
  | closeDemo => exact s.follows_closeDemo
  | startDemo _ _ => exact .schedule _ _ _ _
  | otherKey _ | point _ | calibrate _ | resize _ | openDemo | walking _ _ => exact .refl _ _

end Stage

/-! ## Incident by incident -/

namespace Incident

/-- An entry of the agenda is there before and not afterwards. -/
def Leaves (x : Incident) (e : Appointment) : Prop :=
  e ∈ x.before.agenda.entries ∧ e ∉ x.after.agenda.entries

/-- The clock does not go back, nothing is overdue afterwards, and what is scheduled gets the next
    numbers. What fires leaves the agenda at the instant at which it is due, and nothing else leaves
    it but what an input cancels. -/
structure Punctual (x : Incident) : Prop where
  now_le : x.before.now ≤ x.after.now
  due : ∀ e ∈ x.after.agenda.entries, x.after.now ≤ e.due
  nextSeq_le : x.before.agenda.nextSeq ≤ x.after.agenda.nextSeq
  added : ∀ e ∈ x.after.agenda.entries, e ∈ x.before.agenda.entries ∨
    x.before.agenda.nextSeq ≤ e.seq ∧ e.seq < x.after.agenda.nextSeq
  fired : ∀ e, x.cause = .fire e → x.Leaves e ∧ x.after.now = e.due
  left : ∀ e, x.Leaves e → x.cause = .fire e ∨
    ∃ input, x.cause = .input input ∧ x.before.Cancels input e.timer

variable {x : Incident} {e : Appointment}

/-- What fires is the first entry. -/
theorem Occurs.entries_of_fire (hx : x.Occurs) (hcause : x.cause = .fire e) :
    ∃ rest, x.before.agenda.entries = e :: rest := by
  cases hx with
  | fire hentries =>
      cases hcause
      exact ⟨_, hentries⟩
  | load _ _ | input _ | refused _ | wait _ _ => cases hcause

/-- What happens to the agenda, apart from the entry that fires. -/
theorem Occurs.added (hx : x.Occurs) :
    x.before.agenda.nextSeq ≤ x.after.agenda.nextSeq ∧
      ∀ e ∈ x.after.agenda.entries, e ∈ x.before.agenda.entries ∨
        x.before.agenda.nextSeq ≤ e.seq := by
  cases hx with
  | load s program =>
      have hf := s.follows_load (fun _ => False) program
      exact ⟨hf.nextSeq_le, hf.added⟩
  | input hhandle =>
      have hf := (Stage.answers_of_handle hhandle).follows
      exact ⟨hf.nextSeq_le, hf.added⟩
  | refused hhandle =>
      obtain rfl := Stage.eq_of_refused hhandle
      exact ⟨Nat.le_refl _, fun _ he => Or.inl he⟩
  | @fire s entry rest hentries =>
      have hf := (s.arrive entry rest).follows_fire (fun _ => False) entry.timer
      refine ⟨hf.nextSeq_le, fun e he => (hf.added e he).imp_left fun hrest => ?_⟩
      exact hentries ▸ List.mem_cons_of_mem _ hrest
  | wait _ _ => exact ⟨Nat.le_refl _, fun _ he => Or.inl he⟩

theorem Occurs.left (hx : x.Occurs) (hleaves : x.Leaves e) : x.cause = .fire e ∨
    ∃ input, x.cause = .input input ∧ x.before.Cancels input e.timer := by
  obtain ⟨hbefore, hafter⟩ := hleaves
  cases hx with
  | load s program =>
      exact absurd ((s.follows_load (fun _ => False) program).kept e hbefore) (by simp [hafter])
  | @input s _ input _ hhandle =>
      have hkept := (Stage.answers_of_handle hhandle).follows.kept e hbefore
      exact Or.inr ⟨input, rfl, hkept.resolve_left hafter⟩
  | refused hhandle =>
      obtain rfl := Stage.eq_of_refused hhandle
      exact absurd hbefore hafter
  | @fire s entry rest hentries =>
      rcases List.mem_cons.1 (hentries ▸ hbefore : e ∈ entry :: rest) with rfl | hrest
      · exact Or.inl rfl
      · exact absurd (Stage.mem_fire (s := s.arrive entry rest) entry.timer hrest) hafter
  | wait _ _ => exact absurd hbefore hafter

/-- The entry that fires is due just then and does not stay. -/
theorem Occurs.fired (hx : x.Occurs) (ht : Timely x.before) (hcause : x.cause = .fire e) :
    x.Leaves e ∧ x.after.now = e.due := by
  obtain ⟨-, hadded⟩ := hx.added
  cases hx with
  | @fire s entry rest hentries =>
      cases hcause
      have hmem : e ∈ s.agenda.entries := hentries ▸ List.mem_cons_self
      refine ⟨⟨hmem, fun hafter => ?_⟩, ?_⟩
      · -- behind the first entry it does not stand again, and its number is not given again
        have hf := (s.arrive e rest).follows_fire (fun _ => False) e.timer
        rcases hf.added e hafter with hrest | hseq
        · exact ht.ordered.first_not_mem hentries hrest
        · exact absurd (ht.ordered.numbered e hmem) (Nat.not_lt.2 hseq)
      · rw [Stage.fire_now, ht.now_arrive hentries]
  | load _ _ | input _ | refused _ | wait _ _ => cases hcause

theorem Occurs.punctual (hx : x.Occurs) (ht : Timely x.before) : x.Punctual := by
  have hafter := hx.timely ht
  obtain ⟨hnext, hadded⟩ := hx.added
  exact ⟨hx.now_le, fun e he => (hafter.due e he).1, hnext,
    fun e he => (hadded e he).imp_right fun hseq => ⟨hseq, hafter.ordered.numbered e he⟩,
    fun e hcause => hx.fired ht hcause, fun e hleaves => hx.left hleaves⟩

end Incident

/-! ## Along a journal -/

/-- What has left the agenda is not in it and its number is used up. What has fired was due, in
    order, and everything in the agenda comes after it. -/
structure Stage.FiredInOrder (row : List Incident) (s : Stage) : Prop where
  timely : Timely s
  punctual : ∀ x ∈ row, x.Punctual
  once : row.Pairwise fun x y => ∀ e, x.Leaves e → ¬ y.Leaves e
  away : ∀ x ∈ row, ∀ e, x.Leaves e → e ∉ s.agenda.entries ∧ e.seq < s.agenda.nextSeq
  sorted : (row.filterMap (·.cause.fired?)).Pairwise Appointment.Before
  past : ∀ f ∈ row.filterMap (·.cause.fired?), f.due ≤ s.now ∧ f.seq < s.agenda.nextSeq ∧
    ∀ e ∈ s.agenda.entries, f.Before e

namespace Stage.FiredInOrder

variable {row : List Incident} {x : Incident}

theorem of_timely {s : Stage} (ht : Timely s) : FiredInOrder [] s :=
  ⟨ht, List.forall_mem_nil _, .nil, List.forall_mem_nil _, .nil, List.forall_mem_nil _⟩

/-- What is in the agenda afterwards comes after all that has fired before. -/
theorem past_before (h : FiredInOrder row x.before) (hp : x.Punctual) {f : Appointment}
    (hf : f ∈ row.filterMap (·.cause.fired?)) :
    f.due ≤ x.after.now ∧ f.seq < x.after.agenda.nextSeq ∧
      ∀ e ∈ x.after.agenda.entries, f.Before e := by
  obtain ⟨hdue, hseq, hbefore⟩ := h.past f hf
  have hnow := Nat.le_trans hdue hp.now_le
  refine ⟨hnow, Nat.lt_of_lt_of_le hseq hp.nextSeq_le, fun e he => ?_⟩
  rcases hp.added e he with he' | ⟨hnew, -⟩
  · exact hbefore e he'
  · exact .of_le (Nat.le_trans hnow (hp.due e he)) (Nat.lt_of_lt_of_le hseq hnew)

/-- What is in the agenda after a firing comes after what has fired. -/
theorem fired_before (h : FiredInOrder row x.before) (hx : x.Occurs) (hp : x.Punctual)
    {f : Appointment} (hcause : x.cause = .fire f) :
    f.due ≤ x.after.now ∧ f.seq < x.after.agenda.nextSeq ∧
      ∀ e ∈ x.after.agenda.entries, f.Before e := by
  obtain ⟨⟨hmem, hgone⟩, hnow⟩ := hp.fired f hcause
  have hseq := h.timely.ordered.numbered f hmem
  refine ⟨Nat.le_of_eq hnow.symm, Nat.lt_of_lt_of_le hseq hp.nextSeq_le, fun e he => ?_⟩
  rcases hp.added e he with he' | ⟨hnew, -⟩
  · -- it stood behind the first entry
    obtain ⟨rest, hentries⟩ := hx.entries_of_fire hcause
    rcases List.mem_cons.1 (hentries ▸ he' : e ∈ f :: rest) with rfl | hrest
    · exact absurd he hgone
    · exact (List.pairwise_cons.1 (hentries ▸ h.timely.ordered.sorted)).1 e hrest
  · exact .of_le (hnow ▸ hp.due e he) (Nat.lt_of_lt_of_le hseq hnew)

/-- What has left stays away. -/
theorem away_after (h : FiredInOrder row x.before) (hp : x.Punctual) :
    ∀ y ∈ row ++ [x], ∀ e, y.Leaves e →
      e ∉ x.after.agenda.entries ∧ e.seq < x.after.agenda.nextSeq := by
  intro y hy e hleaves
  rcases List.mem_append.1 hy with hy | hy
  · obtain ⟨hgone, hseq⟩ := h.away y hy e hleaves
    refine ⟨fun he => ?_, Nat.lt_of_lt_of_le hseq hp.nextSeq_le⟩
    rcases hp.added e he with he | ⟨hnew, -⟩
    · exact hgone he
    · exact absurd hseq (Nat.not_lt.2 hnew)
  · obtain rfl := List.mem_singleton.1 hy
    have hseq := h.timely.ordered.numbered e hleaves.1
    exact ⟨hleaves.2, Nat.lt_of_lt_of_le hseq hp.nextSeq_le⟩

theorem snoc (h : FiredInOrder row x.before) (hx : x.Occurs) :
    FiredInOrder (row ++ [x]) x.after := by
  have hp := hx.punctual h.timely
  have hfired : ∀ f ∈ [x].filterMap (·.cause.fired?), x.cause = .fire f := by
    intro f hf
    cases hcause : x.cause <;> simp_all [Cause.fired?]
  refine ⟨hx.timely h.timely, ?_, ?_, h.away_after hp, ?_, ?_⟩
  · intro y hy
    rcases List.mem_append.1 hy with hy | hy
    · exact h.punctual y hy
    · exact List.mem_singleton.1 hy ▸ hp
  · refine List.pairwise_append.2 ⟨h.once, List.pairwise_singleton _ _, fun y hy z hz e hleft => ?_⟩
    obtain rfl := List.mem_singleton.1 hz
    exact fun hleaves => (h.away y hy e hleft).1 hleaves.1
  · rw [List.filterMap_append]
    refine List.pairwise_append.2 ⟨h.sorted, ?_, fun f hf g hg => ?_⟩
    · cases hcause : x.cause <;> simp [hcause, Cause.fired?]
    · exact (h.past f hf).2.2 g (hp.fired g (hfired g hg)).1.1
  · rw [List.filterMap_append]
    intro f hf
    rcases List.mem_append.1 hf with hf | hf
    · exact h.past_before hp hf
    · exact h.fired_before hx hp (hfired f hf)

end Stage.FiredInOrder

theorem Stage.Journal.firedInOrder {s s' : Stage} {row : List Incident} (h : s.Journal row s')
    (ht : Timely s) : FiredInOrder row s' :=
  h.induction (P := FiredInOrder) (fun hrow hx => hrow.snoc hx) (FiredInOrder.of_timely ht)

/-! ## Main result -/

/-- Advancing to an instant that is over fires nothing and does not touch the clock. -/
theorem Timely.advanceTo?_of_lt {s : Stage} (h : Timely s) {target : Instant}
    (hover : target < s.now) :
    s.advanceTo? target = some ({ s with pointer := s.pointer.flush s.now }, []) := by
  have hmin : min target lastInstant = target := by
    have hlast := h.now_le
    lia
  have hnone : s.fireNext? target = none := by
    refine Stage.fireNext?_eq_none.2 fun e he => ?_
    exact Nat.lt_of_lt_of_le hover (h.due e (List.mem_of_mem_head? he)).1
  rw [Stage.advanceTo?_eq, hmin, Stage.drain_of_none hnone, Option.map_some, Stage.waitUntil,
    Nat.max_eq_left (Nat.le_of_lt hover)]

/-- Timers fire neither early nor late, neither twice nor not at all. Whatever happens in an
    execution is punctual (`Incident.Punctual`): the clock does not go back, no entry of the agenda
    is ever overdue, an entry fires just at the instant at which it is due, and it leaves the agenda
    only by this or because an input cancels its kind. No entry leaves twice, and those that fire do
    so in the order in which they are due and were scheduled. When the clock was advanced to an
    instant, it stands there and all that is left is due later; an instant that is over fires
    nothing. -/
theorem Execution.timers_fire_on_time {config : StageConfig} {s : Stage} {log : List TimedEvent}
    {plans : List Announcement} (h : Execution config s log plans) :
    (∀ e ∈ s.agenda.entries, s.now ≤ e.due) ∧
    (∃ start row, Stage.IsNew config start ∧ start.Journal row s ∧
      row.flatMap Incident.told = log) ∧
    (∀ start row, Stage.IsNew config start → start.Journal row s →
      (∀ x ∈ row, x.Punctual) ∧
      (row.Pairwise fun x y => ∀ e, x.Leaves e → ¬ y.Leaves e) ∧
      (row.filterMap (·.cause.fired?)).Pairwise Appointment.Before) ∧
    (∀ target s' events, s.now ≤ target → target ≤ lastInstant →
      s.advanceTo? target = some (s', events) →
        s'.now = target ∧ ∀ e ∈ s'.agenda.entries, target < e.due) ∧
    ∀ target, target < s.now →
      s.advanceTo? target = some ({ s with pointer := s.pointer.flush s.now }, []) := by
  have ht := h.reachable.timely
  refine ⟨fun e he => (ht.due e he).1, h.exists_journal, fun start row hnew hrow => ?_,
    fun target s' events hle hlast hadvance => ?_, fun target hover => ht.advanceTo?_of_lt hover⟩
  · have hfired := hrow.firedInOrder hnew.timely
    exact ⟨hfired.punctual, hfired.once, hfired.sorted⟩
  · have hnow := Stage.advanceTo?_now hadvance
    have hdue := h.reachable.lt_due_of_advanceTo? hadvance
    rw [Nat.min_eq_left hlast] at hnow hdue
    exact ⟨hnow.trans (Nat.max_eq_right hle), hdue⟩

/-- Two runs wait for their second steps at the same instant. Both steps have been made when the
    clock gets there, in the order in which they were scheduled. -/
theorem timers_of_two_runs :
    let start := Stage.new ⟨[[.trigger .flagClicked, .move 10, .move 10],
      [.trigger .flagClicked, .move 5, .move 5]], none⟩
    let clicked := start.dispatch (.trigger .flagClicked)
    clicked.1.agenda.entries = [⟨10, 0, .step 1 1⟩, ⟨10, 1, .step 2 1⟩] ∧
      ∃ later first row, clicked.1.advanceTimed? 10 = some later ∧
        later.1.agenda.entries = [] ∧ later.1.now = 10 ∧
        Stage.IsNew {} first ∧ first.Journal row later.1 ∧
        row.flatMap Incident.told = clicked.1.stamp clicked.2 ++ later.2 ∧
        (∀ x ∈ row, x.Punctual) ∧
        (row.filterMap (·.cause.fired?)).Pairwise Appointment.Before := by
  intro start clicked
  have hclick : start.operateTimed? (.input .flagClicked)
      = some (Stage.accepted (Stage.stamped clicked)) := rfl
  have hexecution : Execution {} clicked.1 (clicked.1.stamp clicked.2) _ :=
    .operate (.new (Stage.isNew_new _)) hclick
  have hempty : (clicked.1.advanceTimed? 10).map (·.1.agenda.entries) = some [] := by
    decide +kernel
  obtain ⟨later, hadvance, hentries⟩ := Option.map_eq_some_iff.1 hempty
  have hwait : clicked.1.operateTimed? (.advanceTo 10) = some (Stage.accepted later) := by
    rw [Stage.operateTimed?, hadvance]
    rfl
  obtain ⟨-, -, -, hreach, -⟩ := hexecution.timers_fire_on_time
  have hnow := (hreach 10 _ _ (by decide) (by decide) (Stage.advanceTo?_of_timed hadvance)).1
  obtain ⟨-, ⟨first, row, hnew, hrow, htold⟩, hall, -⟩ :=
    (hexecution.operate hwait).timers_fire_on_time
  obtain ⟨hpunctual, -, hsorted⟩ := hall first row hnew hrow
  exact ⟨by decide +kernel, later, first, row, hadvance, hentries, hnow, hnew, hrow, htold,
    hpunctual, hsorted⟩

end SpriteStage

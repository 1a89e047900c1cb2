import SpriteStage.Stage.Agenda
set_option autoImplicit false

/-! # The agenda: order and contents

`Agenda.Ordered` says that the entries stand in the order in which they are due, those due at the
same instant in the order in which they were scheduled (`Appointment.Before`). Every operation keeps
it (`Agenda.Ordered.schedule`, `Agenda.Ordered.cancel`, `Agenda.Ordered.tail`), so what is taken
comes before all that is left (`Agenda.Ordered.before_of_popDue?`).

What an agenda holds of one kind of timer is looked at through `Agenda.dues`, with the instants, and
through `Agenda.pick` without them: scheduling a timer of another kind leaves the view as it is,
scheduling one of the kind adds it at its place, and cancelling the kind empties it. -/

namespace SpriteStage

/-! ## Order -/

namespace Appointment

variable {a b c : Appointment}

theorem Before.due_le (h : a.Before b) : a.due ≤ b.due := by
  rcases h with h | ⟨h, -⟩
  · exact Nat.le_of_lt h
  · exact Nat.le_of_eq h

theorem Before.of_le (hdue : a.due ≤ b.due) (hseq : a.seq < b.seq) : a.Before b := by
  rcases Nat.lt_or_eq_of_le hdue with hlt | heq
  · exact Or.inl hlt
  · exact Or.inr ⟨heq, hseq⟩

/-- Of an entry and one that is scheduled later the due instant says which comes first. -/
theorem before_iff_due_le (hseq : a.seq < b.seq) : a.Before b ↔ a.due ≤ b.due :=
  ⟨Before.due_le, fun hdue => .of_le hdue hseq⟩

theorem Before.irrefl (a : Appointment) : ¬ a.Before a := by
  rintro (h | ⟨-, h⟩)
  · exact Nat.lt_irrefl _ h
  · exact Nat.lt_irrefl _ h

theorem Before.trans (h : a.Before b) (h' : b.Before c) : a.Before c := by
  unfold Before Instant at *
  omega

theorem Before.asymm (h : a.Before b) : ¬ b.Before a := fun h' => irrefl a (h.trans h')

/-- Of two entries with different numbers one comes before the other. -/
theorem before_of_not_before (hseq : a.seq ≠ b.seq) (h : ¬ a.Before b) : b.Before a := by
  unfold Before Instant at *
  omega

/-- What does not come before an entry does not come before anything that the entry does not come
    before. -/
theorem not_before_trans (hab : ¬ a.Before b) (hbc : ¬ b.Before c) : ¬ a.Before c := by
  unfold Before Instant at *
  omega

end Appointment

namespace Agenda

theorem insert_perm (entry : Appointment) (entries : List Appointment) :
    (insert entry entries).Perm (entry :: entries) := by
  induction entries with
  | nil => rfl
  | cons first rest ih =>
      rw [insert]
      split
      · exact (ih.cons first).trans (List.Perm.swap entry first rest)
      · rfl

theorem mem_insert {e entry : Appointment} {entries : List Appointment} :
    e ∈ insert entry entries ↔ e = entry ∨ e ∈ entries := by
  rw [(insert_perm entry entries).mem_iff, List.mem_cons]

/-- An entry with a number of its own is put in its place. -/
theorem pairwise_insert {entry : Appointment} {entries : List Appointment}
    (hnew : ∀ e ∈ entries, e.seq ≠ entry.seq) (h : entries.Pairwise Appointment.Before) :
    (insert entry entries).Pairwise Appointment.Before := by
  induction entries with
  | nil => simp [insert]
  | cons first rest ih =>
      obtain ⟨hfirst, hrest⟩ := List.pairwise_cons.1 h
      rw [insert]
      split
      · rename_i hbefore
        refine List.pairwise_cons.2
          ⟨fun e he => ?_, ih (fun e he => hnew e (List.mem_cons_of_mem _ he)) hrest⟩
        rcases mem_insert.1 he with rfl | he
        · exact hbefore
        · exact hfirst e he
      · rename_i hnot
        have hbefore : entry.Before first :=
          Appointment.before_of_not_before (hnew first List.mem_cons_self) hnot
        refine List.pairwise_cons.2 ⟨fun e he => ?_, h⟩
        rcases List.mem_cons.1 he with rfl | he
        · exact hbefore
        · exact hbefore.trans (hfirst e he)

/-- The entries are in order, and all numbers given so far are below the next one. -/
structure Ordered (a : Agenda) : Prop where
  sorted : a.entries.Pairwise Appointment.Before
  numbered : ∀ e ∈ a.entries, e.seq < a.nextSeq

theorem ordered_empty : empty.Ordered := ⟨List.Pairwise.nil, nofun⟩

theorem mem_schedule {a : Agenda} {due : Instant} {timer : Timer} {e : Appointment} :
    e ∈ (a.schedule due timer).entries ↔ e = ⟨due, a.nextSeq, timer⟩ ∨ e ∈ a.entries :=
  mem_insert

theorem mem_cancel {a : Agenda} {condition : Timer → Bool} {e : Appointment} :
    e ∈ (a.cancel condition).entries ↔ e ∈ a.entries ∧ condition e.timer = false := by
  simp [cancel]

theorem Ordered.schedule {a : Agenda} (h : a.Ordered) (due : Instant) (timer : Timer) :
    (a.schedule due timer).Ordered where
  sorted := pairwise_insert (fun e he => Nat.ne_of_lt (h.numbered e he)) h.sorted
  numbered e he := by
    rcases mem_schedule.1 he with rfl | he
    · exact Nat.lt_succ_self _
    · exact Nat.lt_succ_of_lt (h.numbered e he)

theorem Ordered.cancel {a : Agenda} (h : a.Ordered) (condition : Timer → Bool) :
    (a.cancel condition).Ordered where
  sorted := h.sorted.filter _
  numbered e he := h.numbered e (mem_cancel.1 he).1

theorem Ordered.tail {a : Agenda} (h : a.Ordered) {first : Appointment} {rest : List Appointment}
    (he : a.entries = first :: rest) : ({ a with entries := rest } : Agenda).Ordered where
  sorted := (List.pairwise_cons.1 (he ▸ h.sorted)).2
  numbered e hmem := h.numbered e (he ▸ List.mem_cons_of_mem _ hmem)

/-- The first entry comes before all others. -/
theorem Ordered.first_before {a : Agenda} (h : a.Ordered) {first : Appointment}
    {rest : List Appointment} (he : a.entries = first :: rest) : ∀ e ∈ rest, first.Before e :=
  (List.pairwise_cons.1 (he ▸ h.sorted)).1

/-- Nothing is due before the first entry. -/
theorem Ordered.first_le {a : Agenda} (h : a.Ordered) {first : Appointment}
    {rest : List Appointment} (he : a.entries = first :: rest) :
    ∀ e ∈ rest, first.due ≤ e.due :=
  fun e hmem => (h.first_before he e hmem).due_le

/-- No entry stands twice. -/
theorem Ordered.nodup {a : Agenda} (h : a.Ordered) : a.entries.Nodup := by
  refine h.sorted.imp ?_
  rintro e _ hbefore rfl
  exact Appointment.Before.irrefl e hbefore

theorem Ordered.first_not_mem {a : Agenda} (h : a.Ordered) {first : Appointment}
    {rest : List Appointment} (he : a.entries = first :: rest) : first ∉ rest :=
  (List.nodup_cons.1 (he ▸ h.nodup)).1

theorem popDue?_eq_some {a left : Agenda} {limit : Instant} {entry : Appointment}
    (h : a.popDue? limit = some (entry, left)) :
    ∃ rest, a.entries = entry :: rest ∧ entry.due ≤ limit ∧ left = { a with entries := rest } := by
  unfold popDue? at h
  split at h
  · cases h
  · rename_i first rest hentries
    split at h
    · rename_i hdue
      cases h
      exact ⟨rest, hentries, hdue, rfl⟩
    · cases h

/-- The entry that is taken comes before all that are left. -/
theorem Ordered.before_of_popDue? {a left : Agenda} (h : a.Ordered) {limit : Instant}
    {entry : Appointment} (hpop : a.popDue? limit = some (entry, left)) :
    ∀ e ∈ left.entries, entry.Before e := by
  obtain ⟨rest, hentries, -, rfl⟩ := popDue?_eq_some hpop
  exact h.first_before hentries

/-- When no entry is taken, the first one is due later, and so are all behind it. -/
theorem Ordered.lt_due_of_popDue?_eq_none {a : Agenda} (h : a.Ordered) {limit : Instant}
    (hnone : a.popDue? limit = none) : ∀ e ∈ a.entries, limit < e.due := by
  unfold popDue? at hnone
  split at hnone
  · rename_i hentries
    rw [hentries]
    exact nofun
  · rename_i first rest hentries
    split at hnone
    · cases hnone
    · rename_i hdue
      have hfirst : limit < first.due := Nat.lt_of_not_le hdue
      rw [hentries]
      exact List.forall_mem_cons.2
        ⟨hfirst, fun e he => Nat.lt_of_lt_of_le hfirst (h.first_le hentries e he)⟩

/-! ## Contents with their instants -/

/-- In an agenda in order a new entry parts those that come before it from the others. -/
theorem insert_eq_filter (entry : Appointment) {entries : List Appointment}
    (h : entries.Pairwise Appointment.Before) :
    insert entry entries
      = entries.filter (fun e => decide (e.Before entry))
        ++ entry :: entries.filter fun e => !decide (e.Before entry) := by
  induction entries with
  | nil => rfl
  | cons first rest ih =>
      obtain ⟨hfirst, hrest⟩ := List.pairwise_cons.1 h
      rw [insert]
      split
      · rename_i hbefore
        rw [ih hrest, List.filter_cons_of_pos (by simpa using hbefore),
          List.filter_cons_of_neg (by simpa using hbefore), List.cons_append]
      · rename_i hnot
        -- the first entry does not come before the new one, and neither does any behind it
        have hbehind : ∀ e ∈ first :: rest, ¬ e.Before entry := by
          intro e he
          rcases List.mem_cons.1 he with rfl | he
          · exact hnot
          · exact fun hbefore => hnot ((hfirst e he).trans hbefore)
        rw [List.filter_eq_nil_iff.2 (by simpa using hbehind),
          List.filter_eq_self.2 (by simpa using hbehind), List.nil_append]

/-- A timer is put behind those due no later, since all of these were scheduled earlier. -/
theorem Ordered.schedule_entries {a : Agenda} (h : a.Ordered) (due : Instant) (timer : Timer) :
    (a.schedule due timer).entries
      = a.entries.filter (fun e => decide (e.due ≤ due))
        ++ ⟨due, a.nextSeq, timer⟩ :: a.entries.filter fun e => decide (due < e.due) := by
  have hbefore : ∀ e ∈ a.entries, e.Before ⟨due, a.nextSeq, timer⟩ ↔ e.due ≤ due :=
    fun e he => Appointment.before_iff_due_le (h.numbered e he)
  have hlater : ∀ e ∈ a.entries,
      (!decide (e.Before ⟨due, a.nextSeq, timer⟩)) = decide (due < e.due) := by
    intro e he
    rw [← decide_not, decide_eq_decide, hbefore e he]
    exact Nat.not_le
  unfold Agenda.schedule
  rw [insert_eq_filter _ h.sorted, List.filter_congr hlater,
    List.filter_congr fun e he => decide_eq_decide.2 (hbefore e he)]

/-- A view that leaves an entry out does not see it inserted. -/
theorem filterMap_insert_of_none {α : Type} {view : Appointment → Option α} {entry : Appointment}
    (hview : view entry = none) (entries : List Appointment) :
    (insert entry entries).filterMap view = entries.filterMap view := by
  induction entries with
  | nil => simp [insert, hview]
  | cons first rest ih =>
      rw [insert]
      split
      · rw [List.filterMap_cons, List.filterMap_cons, ih]
      · rw [List.filterMap_cons, hview]

/-- What an agenda holds of one kind of timer, in order and with the instants at which it is due;
    `kind` reads the parameters of that kind and is `none` for all others. -/
def dues {α : Type} (kind : Timer → Option α) (a : Agenda) : List (Instant × α) :=
  a.entries.filterMap fun e => (kind e.timer).map (e.due, ·)

section Dues

variable {α : Type} {kind : Timer → Option α}

theorem mem_dues {a : Agenda} {due : Instant} {x : α} :
    (due, x) ∈ a.dues kind ↔ ∃ e ∈ a.entries, e.due = due ∧ kind e.timer = some x := by
  simp only [dues, List.mem_filterMap, Option.map_eq_some_iff, Prod.mk.injEq]
  constructor
  · rintro ⟨e, he, y, hy, rfl, rfl⟩
    exact ⟨e, he, rfl, hy⟩
  · rintro ⟨e, he, rfl, hx⟩
    exact ⟨e, he, x, hx, rfl, rfl⟩

theorem dues_cons_of_none {a : Agenda} {first : Appointment} {rest : List Appointment}
    (he : a.entries = first :: rest) (hk : kind first.timer = none) :
    a.dues kind = ({ a with entries := rest } : Agenda).dues kind := by
  simp [dues, he, hk]

theorem dues_cons_of_some {a : Agenda} {first : Appointment} {rest : List Appointment} {x : α}
    (he : a.entries = first :: rest) (hk : kind first.timer = some x) :
    a.dues kind = (first.due, x) :: ({ a with entries := rest } : Agenda).dues kind := by
  simp [dues, he, hk]

/-- Looking at those due within some instants is looking at the entries due within them. -/
theorem filterMap_filter_due (p : Instant → Bool) (entries : List Appointment) :
    (entries.filter fun e => p e.due).filterMap (fun e => (kind e.timer).map (e.due, ·))
      = (entries.filterMap fun e => (kind e.timer).map (e.due, ·)).filter fun x => p x.1 := by
  induction entries with
  | nil => rfl
  | cons first rest ih =>
      cases hk : kind first.timer with
      | none => by_cases hp : p first.due <;> simp [hp, hk, ih]
      | some x => by_cases hp : p first.due <;> simp [hp, hk, ih]

theorem Ordered.dues_schedule {a : Agenda} (h : a.Ordered) (due : Instant) {timer : Timer} {x : α}
    (hk : kind timer = some x) :
    (a.schedule due timer).dues kind
      = (a.dues kind).filter (fun p => decide (p.1 ≤ due))
        ++ (due, x) :: (a.dues kind).filter fun p => decide (due < p.1) := by
  simp only [dues, h.schedule_entries, List.filterMap_append, List.filterMap_cons, hk,
    Option.map_some]
  rw [filterMap_filter_due (fun d => decide (d ≤ due)),
    filterMap_filter_due (fun d => decide (due < d))]

theorem dues_schedule_of_none (a : Agenda) (due : Instant) {timer : Timer}
    (hk : kind timer = none) : (a.schedule due timer).dues kind = a.dues kind :=
  filterMap_insert_of_none (by rw [hk]; rfl) a.entries

theorem dues_cancel_of_false (a : Agenda) {condition : Timer → Bool}
    (hc : ∀ timer x, kind timer = some x → condition timer = false) :
    (a.cancel condition).dues kind = a.dues kind := by
  simp only [dues, cancel, List.filterMap_filter]
  congr 1
  funext e
  cases hk : kind e.timer with
  | none => simp
  | some x => simp [hc e.timer x hk]

theorem dues_cancel_of_true (a : Agenda) {condition : Timer → Bool}
    (hc : ∀ timer x, kind timer = some x → condition timer = true) :
    (a.cancel condition).dues kind = [] := by
  rw [dues, List.filterMap_eq_nil_iff]
  intro e he
  cases hk : kind e.timer with
  | none => rfl
  | some x =>
      have hfalse := (mem_cancel.1 he).2
      rw [hc e.timer x hk] at hfalse
      cases hfalse

theorem dues_cancel_sublist (a : Agenda) (condition : Timer → Bool) :
    ((a.cancel condition).dues kind).Sublist (a.dues kind) :=
  List.filter_sublist.filterMap _

end Dues

/-! ## Contents by kind -/

/-- What an agenda holds of one kind of timer, in order. -/
def pick {α : Type} (kind : Timer → Option α) (a : Agenda) : List α :=
  a.entries.filterMap fun e => kind e.timer

section Pick

variable {α : Type} {kind : Timer → Option α}

theorem mem_pick {a : Agenda} {x : α} :
    x ∈ a.pick kind ↔ ∃ e ∈ a.entries, kind e.timer = some x := by
  simp [pick]

/-- It is the view with the instants, without the instants. -/
theorem pick_eq_map_dues (a : Agenda) : a.pick kind = (a.dues kind).map (·.2) := by
  simp [pick, dues, List.map_filterMap, Function.comp_def]

theorem pick_eq_of_dues_eq {a b : Agenda} (h : a.dues kind = b.dues kind) :
    a.pick kind = b.pick kind := by
  rw [pick_eq_map_dues, pick_eq_map_dues, h]

theorem pick_cons_of_none {a : Agenda} {first : Appointment} {rest : List Appointment}
    (he : a.entries = first :: rest) (hk : kind first.timer = none) :
    ({ a with entries := rest } : Agenda).pick kind = a.pick kind :=
  pick_eq_of_dues_eq (dues_cons_of_none he hk).symm

theorem pick_cons_of_some {a : Agenda} {first : Appointment} {rest : List Appointment} {x : α}
    (he : a.entries = first :: rest) (hk : kind first.timer = some x) :
    a.pick kind = x :: ({ a with entries := rest } : Agenda).pick kind := by
  rw [pick_eq_map_dues, dues_cons_of_some he hk, List.map_cons, pick_eq_map_dues]

theorem pick_schedule_of_none (a : Agenda) (due : Instant) {timer : Timer}
    (hk : kind timer = none) : (a.schedule due timer).pick kind = a.pick kind :=
  pick_eq_of_dues_eq (dues_schedule_of_none a due hk)

theorem pick_schedule_of_some (a : Agenda) (due : Instant) {timer : Timer} {x : α}
    (hk : kind timer = some x) : ((a.schedule due timer).pick kind).Perm (x :: a.pick kind) := by
  have h := (insert_perm ⟨due, a.nextSeq, timer⟩ a.entries).filterMap fun e => kind e.timer
  rwa [List.filterMap_cons_some (f := fun e : Appointment => kind e.timer) hk] at h

theorem pick_cancel_of_false (a : Agenda) {condition : Timer → Bool}
    (hc : ∀ timer x, kind timer = some x → condition timer = false) :
    (a.cancel condition).pick kind = a.pick kind :=
  pick_eq_of_dues_eq (dues_cancel_of_false a hc)

theorem pick_cancel_of_true (a : Agenda) {condition : Timer → Bool}
    (hc : ∀ timer x, kind timer = some x → condition timer = true) :
    (a.cancel condition).pick kind = [] := by
  rw [pick_eq_map_dues, dues_cancel_of_true a hc, List.map_nil]

end Pick

end Agenda

/-! ## Kinds of timers -/

namespace Timer

/-- The run and the index of a timer that makes a step. -/
def step? : Timer → Option (RunId × Nat)
  | .step run index => some (run, index)
  | _ => none

/-- The session of a timer that moves the demo on. -/
def demoTick? : Timer → Option Nat
  | .demoTick session => some session
  | _ => none

theorem eq_step_of_step? {timer : Timer} {run : RunId} {index : Nat}
    (h : timer.step? = some (run, index)) : timer = .step run index := by
  cases timer <;> simp_all [step?]

theorem isStep_of_step? (timer : Timer) (x : RunId × Nat) (h : timer.step? = some x) :
    timer.isStep = true := by
  cases timer <;> simp_all [step?, isStep]

theorem exists_step?_of_isStep {timer : Timer} (h : timer.isStep = true) :
    ∃ x, timer.step? = some x := by
  cases timer <;> simp_all [step?, isStep]

theorem isDemoTick_of_isStep {timer : Timer} (h : timer.isStep = true) :
    timer.isDemoTick = false := by
  cases timer <;> simp_all [isDemoTick, isStep]

theorem isDemoTick_of_isClear (timer : Timer) (h : timer.isClear = true) :
    timer.isDemoTick = false := by
  cases timer <;> simp_all [isDemoTick, isClear]

theorem isClear_of_isStep {timer : Timer} (h : timer.isStep = true) : timer.isClear = false := by
  cases timer <;> simp_all [isClear, isStep]

theorem isStep_of_isClear {timer : Timer} (h : timer.isClear = true) : timer.isStep = false := by
  cases timer <;> simp_all [isClear, isStep]

theorem isClear_of_step? (timer : Timer) (x : RunId × Nat) (h : timer.step? = some x) :
    timer.isClear = false := by
  cases timer <;> simp_all [step?, isClear]

theorem isDemoTick_of_step? (timer : Timer) (x : RunId × Nat) (h : timer.step? = some x) :
    timer.isDemoTick = false := by
  cases timer <;> simp_all [step?, isDemoTick]

theorem isStep_of_demoTick? (timer : Timer) (x : Nat) (h : timer.demoTick? = some x) :
    timer.isStep = false := by
  cases timer <;> simp_all [demoTick?, isStep]

theorem isClear_of_demoTick? (timer : Timer) (x : Nat) (h : timer.demoTick? = some x) :
    timer.isClear = false := by
  cases timer <;> simp_all [demoTick?, isClear]

theorem isDemoTick_of_demoTick? (timer : Timer) (x : Nat) (h : timer.demoTick? = some x) :
    timer.isDemoTick = true := by
  cases timer <;> simp_all [demoTick?, isDemoTick]

end Timer

end SpriteStage

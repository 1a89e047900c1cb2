import SpriteStage.Proofs.Agenda
set_option autoImplicit false

/-! # The agenda as a stable priority queue

A backlog is the plainest thing that an agenda could be: the entries in the order in which they were
scheduled, numbered from zero, out of which the one that comes first is looked up whenever it is
wanted. `Agenda.behaves_as_backlog` says that nobody can tell an agenda from a backlog: whatever is
done with both, the answers are the same. Taking entries as long as some are due by an instant
yields those that are, in order, and leaves the others (`Agenda.takeDue`). -/

namespace SpriteStage

/-! ## What is done with an agenda -/

namespace Agenda

/-- Something that is done with an agenda or asked of it. -/
inductive Call where
  | schedule (due : Instant) (timer : Timer)
  | popDue (limit : Instant)
  | cancel (condition : Timer → Bool)
  | any (condition : Timer → Bool)
  | nextDue
  | size
  | isEmpty

/-- Whether a call schedules something. -/
def Call.isSchedule : Call → Bool
  | .schedule _ _ => true
  | _ => false

/-- What is answered to a call. -/
inductive Answer where
  | done
  | popped (entry : Option Appointment)
  | due (instant : Option Instant)
  | number (n : Nat)
  | truth (b : Bool)
deriving DecidableEq

/-- Answer a call. -/
def answer (a : Agenda) : Call → Answer × Agenda
  | .schedule due timer => (.done, a.schedule due timer)
  | .popDue limit =>
    match a.popDue? limit with
    | some (entry, left) => (.popped (some entry), left)
    | none => (.popped none, a)
  | .cancel condition => (.number (a.cancelCount condition), a.cancel condition)
  | .any condition => (.truth (a.any condition), a)
  | .nextDue => (.due a.nextDue?, a)
  | .size => (.number a.size, a)
  | .isEmpty => (.truth a.isEmpty, a)

/-- Answer calls one after the other. -/
def answers (a : Agenda) : List Call → List Answer × Agenda
  | [] => ([], a)
  | call :: rest =>
    let (first, a) := a.answer call
    let (later, a) := a.answers rest
    (first :: later, a)

/-- As many entries are taken away as have a timer that satisfies the condition. -/
theorem cancelCount_eq (a : Agenda) (condition : Timer → Bool) :
    a.cancelCount condition = a.entries.countP (condition ·.timer) := by
  have hall : a.entries.length
      = a.entries.countP (condition ·.timer) + (a.cancel condition).entries.length := by
    rw [List.length_eq_countP_add_countP (condition ·.timer), cancel,
      ← List.countP_eq_length_filter]
    simp only [Bool.not_eq_true, Bool.decide_eq_false]
  exact Nat.sub_eq_of_eq_add hall

/-- Take entries as long as some are due by an instant. -/
def takeDue (a : Agenda) (limit : Instant) : List Appointment × Agenda :=
  match h : a.popDue? limit with
  | none => ([], a)
  | some (entry, left) =>
    have : left.entries.length < a.entries.length := by
      obtain ⟨rest, hentries, -, rfl⟩ := popDue?_eq_some h
      exact hentries ▸ Nat.lt_succ_self _
    let (later, rest) := left.takeDue limit
    (entry :: later, rest)
termination_by a.entries.length

end Agenda

/-! ## Backlogs -/

/-- Entries in the order in which they were scheduled, and how many have been scheduled so far. -/
structure Backlog where
  entries : List Appointment
  scheduled : Nat

namespace Backlog

/-- Nothing has been scheduled. -/
def empty : Backlog := ⟨[], 0⟩

/-- The entry that comes before all others. -/
def first? : List Appointment → Option Appointment
  | [] => none
  | e :: rest =>
    match first? rest with
    | none => some e
    | some f => if f.Before e then some f else some e

/-- Answer a call by looking through all entries. -/
def answer (b : Backlog) : Agenda.Call → Agenda.Answer × Backlog
  | .schedule due timer =>
    (.done, ⟨b.entries ++ [⟨due, b.scheduled, timer⟩], b.scheduled + 1⟩)
  | .popDue limit =>
    match first? b.entries with
    | some e =>
      if e.due ≤ limit then (.popped (some e), { b with entries := b.entries.erase e })
      else (.popped none, b)
    | none => (.popped none, b)
  | .cancel condition =>
    (.number (b.entries.countP (condition ·.timer)),
      { b with entries := b.entries.filter (!condition ·.timer) })
  | .any condition => (.truth (b.entries.any (condition ·.timer)), b)
  | .nextDue => (.due ((first? b.entries).map (·.due)), b)
  | .size => (.number b.entries.length, b)
  | .isEmpty => (.truth b.entries.isEmpty, b)

/-- Answer calls one after the other. -/
def answers (b : Backlog) : List Agenda.Call → List Agenda.Answer × Backlog
  | [] => ([], b)
  | call :: rest =>
    let (first, b) := b.answer call
    let (later, b) := b.answers rest
    (first :: later, b)

/-! ## Numbers -/

/-- The entries stand in the order of their numbers, all of which have been given. -/
structure Numbered (b : Backlog) : Prop where
  increasing : b.entries.Pairwise (·.seq < ·.seq)
  given : ∀ e ∈ b.entries, e.seq < b.scheduled

namespace Numbered

variable {b : Backlog}

theorem empty : Backlog.empty.Numbered := ⟨.nil, nofun⟩

theorem sublist (h : b.Numbered) {kept : List Appointment} (hkept : kept.Sublist b.entries) :
    ({ b with entries := kept } : Backlog).Numbered :=
  ⟨h.increasing.sublist hkept, fun e he => h.given e (hkept.mem he)⟩

theorem answer (h : b.Numbered) (call : Agenda.Call) : (b.answer call).2.Numbered := by
  cases call with
  | schedule due timer =>
      refine ⟨List.pairwise_append.2 ⟨h.increasing, List.pairwise_singleton _ _, ?_⟩, ?_⟩
      · intro e he f hf
        rw [List.mem_singleton.1 hf]
        exact h.given e he
      · intro e he
        rcases List.mem_append.1 he with he | he
        · exact Nat.lt_succ_of_lt (h.given e he)
        · rw [List.mem_singleton.1 he]
          exact Nat.lt_succ_self _
  | popDue limit =>
      simp only [Backlog.answer]
      split
      · split
        · exact h.sublist List.erase_sublist
        · exact h
      · exact h
  | cancel condition => exact h.sublist List.filter_sublist
  | any condition => exact h
  | nextDue => exact h
  | size => exact h
  | isEmpty => exact h

theorem answers (h : b.Numbered) (calls : List Agenda.Call) : (b.answers calls).2.Numbered := by
  induction calls generalizing b with
  | nil => exact h
  | cons call rest ih => exact ih (h.answer call)

end Numbered

/-- Only scheduling gives a number away. -/
theorem scheduled_answer (b : Backlog) (call : Agenda.Call) :
    (b.answer call).2.scheduled = b.scheduled + if call.isSchedule then 1 else 0 := by
  cases call with
  | popDue limit =>
      simp only [Backlog.answer]
      split
      · split <;> rfl
      · rfl
  | _ => rfl

theorem scheduled_answers (b : Backlog) (calls : List Agenda.Call) :
    (b.answers calls).2.scheduled = b.scheduled + calls.countP (·.isSchedule) := by
  induction calls generalizing b with
  | nil => rfl
  | cons call rest ih =>
      rw [Backlog.answers, ih, scheduled_answer, List.countP_cons]
      omega

/-! ## The first entry -/

theorem first?_eq_none_iff {entries : List Appointment} : first? entries = none ↔ entries = [] := by
  cases entries with
  | nil => simp [first?]
  | cons e rest =>
      rw [first?]
      split
      · simp
      · split <;> simp

/-- No entry comes before the first one. -/
theorem first?_spec {entries : List Appointment} {e : Appointment} (h : first? entries = some e) :
    e ∈ entries ∧ ∀ f ∈ entries, ¬ f.Before e := by
  induction entries generalizing e with
  | nil => cases h
  | cons head rest ih =>
      rw [first?] at h
      split at h
      · rename_i hnone
        obtain rfl := first?_eq_none_iff.1 hnone
        cases h
        simpa using Appointment.Before.irrefl head
      · rename_i g hsome
        obtain ⟨hmem, hleast⟩ := ih hsome
        split at h
        · rename_i hbefore
          cases h
          exact ⟨List.mem_cons_of_mem _ hmem, List.forall_mem_cons.2 ⟨hbefore.asymm, hleast⟩⟩
        · rename_i hnot
          cases h
          refine ⟨List.mem_cons_self, List.forall_mem_cons.2 ⟨Appointment.Before.irrefl _, ?_⟩⟩
          exact fun f hf => Appointment.not_before_trans (hleast f hf) hnot

end Backlog

/-! ## Agendas and backlogs -/

namespace Agenda

/-- An agenda holds what a backlog holds, and is in order. -/
structure Mirrors (a : Agenda) (b : Backlog) : Prop where
  ordered : a.Ordered
  perm : a.entries.Perm b.entries
  numbered : a.nextSeq = b.scheduled

namespace Mirrors

variable {a : Agenda} {b : Backlog}

theorem empty : Agenda.empty.Mirrors .empty := ⟨ordered_empty, .refl _, rfl⟩

/-- The first entry of a backlog is the one at the head of the agenda. -/
theorem first?_eq (h : a.Mirrors b) : Backlog.first? b.entries = a.entries.head? := by
  cases hentries : a.entries with
  | nil =>
      have hnone : b.entries = [] := List.nil_perm.1 (hentries ▸ h.perm)
      rw [hnone]
      rfl
  | cons first rest =>
      have hmem : first ∈ b.entries := h.perm.mem_iff.1 (by rw [hentries]; exact List.mem_cons_self)
      cases hfound : Backlog.first? b.entries with
      | none =>
          rw [Backlog.first?_eq_none_iff.1 hfound] at hmem
          cases hmem
      | some e =>
          obtain ⟨he, hleast⟩ := Backlog.first?_spec hfound
          have hplace : e = first ∨ e ∈ rest := by
            rw [← List.mem_cons, ← hentries]
            exact h.perm.mem_iff.2 he
          rcases hplace with rfl | hrest
          · rfl
          · have hbefore := h.ordered.first_before hentries e hrest
            exact absurd hbefore (hleast first hmem)

/-- Taking the first entry away takes the same one from both. -/
theorem popDue? (h : a.Mirrors b) (limit : Instant) :
    (a.answer (.popDue limit)).1 = (b.answer (.popDue limit)).1
      ∧ (a.answer (.popDue limit)).2.Mirrors (b.answer (.popDue limit)).2 := by
  cases hentries : a.entries with
  | nil =>
      have hnone : Backlog.first? b.entries = none := by rw [h.first?_eq, hentries, List.head?_nil]
      simp only [Agenda.answer, Agenda.popDue?, hentries, Backlog.answer, hnone, true_and]
      exact h
  | cons first rest =>
      have hfirst : Backlog.first? b.entries = some first := by
        rw [h.first?_eq, hentries, List.head?_cons]
      by_cases hdue : first.due ≤ limit
      · simp only [Agenda.answer, Agenda.popDue?, hentries, Backlog.answer, hfirst, hdue, if_true,
          true_and]
        refine ⟨h.ordered.tail hentries, ?_, h.numbered⟩
        have hperm := (hentries ▸ h.perm).erase first
        rwa [List.erase_cons_head] at hperm
      · simp only [Agenda.answer, Agenda.popDue?, hentries, Backlog.answer, hfirst, hdue, if_false,
          true_and]
        exact h

/-- Agenda and backlog give the same answer and hold the same afterwards. -/
theorem answer (h : a.Mirrors b) (call : Call) :
    (a.answer call).1 = (b.answer call).1 ∧ (a.answer call).2.Mirrors (b.answer call).2 := by
  cases call with
  | schedule due timer =>
      refine ⟨rfl, h.ordered.schedule due timer, ?_, congrArg (· + 1) h.numbered⟩
      have hnew : (a.schedule due timer).entries.Perm (⟨due, b.scheduled, timer⟩ :: a.entries) :=
        h.numbered ▸ insert_perm _ _
      exact (hnew.trans (h.perm.cons _)).trans (List.perm_append_singleton _ _).symm
  | popDue limit => exact h.popDue? limit
  | cancel condition =>
      refine ⟨congrArg Answer.number ?_, h.ordered.cancel condition, h.perm.filter _, h.numbered⟩
      rw [cancelCount_eq, h.perm.countP_eq]
  | any condition =>
      refine ⟨congrArg Answer.truth ?_, h⟩
      rw [Bool.eq_iff_iff, Agenda.any, List.any_eq_true, List.any_eq_true]
      simp only [h.perm.mem_iff]
  | nextDue => exact ⟨congrArg Answer.due (by rw [h.first?_eq]; rfl), h⟩
  | size => exact ⟨congrArg Answer.number h.perm.length_eq, h⟩
  | isEmpty => exact ⟨congrArg Answer.truth h.perm.isEmpty_eq, h⟩

theorem answers (h : a.Mirrors b) (calls : List Call) :
    (a.answers calls).1 = (b.answers calls).1
      ∧ (a.answers calls).2.Mirrors (b.answers calls).2 := by
  induction calls generalizing a b with
  | nil => exact ⟨rfl, h⟩
  | cons call rest ih =>
      obtain ⟨hfirst, hafter⟩ := h.answer call
      obtain ⟨hlater, hend⟩ := ih hafter
      exact ⟨by simp only [Agenda.answers, Backlog.answers, hfirst, hlater], hend⟩

end Mirrors

/-! ## Taking what is due -/

/-- In an agenda in order those due by an instant are taken, and the others stay. -/
theorem Ordered.takeDue_eq {a : Agenda} (h : a.Ordered) (limit : Instant) :
    (a.takeDue limit).1 = a.entries.filter (fun e => decide (e.due ≤ limit))
      ∧ (a.takeDue limit).2.entries = a.entries.filter (fun e => decide (limit < e.due)) := by
  fun_induction a.takeDue limit with
  | case1 a hnone =>
      have hlater := h.lt_due_of_popDue?_eq_none hnone
      rw [List.filter_eq_nil_iff.2 (by simpa using hlater),
        List.filter_eq_self.2 (by simpa using hlater)]
      exact ⟨rfl, rfl⟩
  | case2 a entry left hsome hless later final hlater ih =>
      obtain ⟨rest, hentries, hdue, rfl⟩ := popDue?_eq_some hsome
      obtain ⟨htaken, hleft⟩ := ih (h.tail hentries)
      rw [hlater] at htaken hleft
      rw [hentries, List.filter_cons_of_pos (by simpa using hdue),
        List.filter_cons_of_neg (by simpa using hdue)]
      exact ⟨congrArg (entry :: ·) htaken, hleft⟩

/-- What remains is due later. -/
theorem popDue?_takeDue (a : Agenda) (limit : Instant) :
    (a.takeDue limit).2.popDue? limit = none := by
  fun_induction a.takeDue limit with
  | case1 a hnone => exact hnone
  | case2 a entry left hsome hless later final hlater ih =>
      rwa [hlater] at ih

/-- Taking entries as long as some are due by an instant takes a backlog apart: it yields those due
    by the instant in order and leaves the others, none of which is due by then. -/
structure TakesApart (a : Agenda) (b : Backlog) (limit : Instant) : Prop where
  sorted : (a.takeDue limit).1.Pairwise Appointment.Before
  taken : (a.takeDue limit).1.Perm (b.entries.filter fun e => decide (e.due ≤ limit))
  left : (a.takeDue limit).2.entries.Perm (b.entries.filter fun e => decide (limit < e.due))
  none_left : (a.takeDue limit).2.popDue? limit = none

theorem Mirrors.takesApart {a : Agenda} {b : Backlog} (h : a.Mirrors b) (limit : Instant) :
    a.TakesApart b limit := by
  obtain ⟨htaken, hleft⟩ := h.ordered.takeDue_eq limit
  exact {
    sorted := htaken ▸ h.ordered.sorted.filter _
    taken := htaken ▸ h.perm.filter _
    left := hleft ▸ h.perm.filter _
    none_left := popDue?_takeDue a limit }

/-- An agenda cannot be told from a backlog. Whatever is done with an empty one, all answers are
    those of a backlog, and in the end it holds what the backlog holds, numbered from zero in the
    order in which it was scheduled; taking entries as long as some are due takes the backlog
    apart. -/
theorem behaves_as_backlog (calls : List Call) :
    (empty.answers calls).1 = (Backlog.empty.answers calls).1
      ∧ (empty.answers calls).2.entries.Perm (Backlog.empty.answers calls).2.entries
      ∧ (empty.answers calls).2.entries.Pairwise Appointment.Before
      ∧ (Backlog.empty.answers calls).2.entries.Pairwise (·.seq < ·.seq)
      ∧ (empty.answers calls).2.nextSeq = calls.countP (·.isSchedule)
      ∧ ∀ limit, (empty.answers calls).2.TakesApart (Backlog.empty.answers calls).2 limit := by
  obtain ⟨hanswers, hmirrors⟩ := Mirrors.empty.answers calls
  have hscheduled := Backlog.empty.scheduled_answers calls
  refine ⟨hanswers, hmirrors.perm, hmirrors.ordered.sorted,
    (Backlog.Numbered.empty.answers calls).increasing, ?_, hmirrors.takesApart⟩
  rw [hmirrors.numbered, hscheduled]
  exact Nat.zero_add _

example :
    (empty.answers [.schedule 20 (.clear .speech 1), .schedule 10 (.clear .glide 1),
      .schedule 10 (.clear .speech 2), .popDue 100, .cancel (·.isClear), .popDue 100]).1
    = [.done, .done, .done, .popped (some ⟨10, 1, .clear .glide 1⟩), .number 2, .popped none] := by
  decide

end Agenda

end SpriteStage

import Mathlib.Data.List.Chain
import Mathlib.Data.List.Induction
import SpriteStage.Proofs.Pieces
set_option autoImplicit false

/-! # Throttling the pointer

Movements are numbered in the order in which they are made. `PointerSampler.commits` lists those that
take effect, each with the instant as of which it does, and `PointerSampler.Ledger` is what every call
keeps of them: the position in effect is that of the last one, they are at least a throttle apart, and
one that had to wait is the last movement before the end of its window.

So no movement is lost for longer than the throttle, and none comes back once a later one is in effect.
Nor does it matter how often the sampler is looked at: a look is forgotten after a later one, and a
movement begins with a look (`PointerSampler.flush_run`). `PointerSampler.throttling_loses_nothing` says
all of this. -/

namespace SpriteStage

namespace PointerSampler

/-! ## Calls -/

/-- A movement of the pointer. -/
structure Movement where
  now : Instant
  position : Point

/-- What a sampler can be asked to do. -/
inductive Request where
  | record (position : Point)
  | flush
  | look

/-- A request and the instant at which it is made. -/
structure Call where
  now : Instant
  request : Request

/-- The movement that a call takes note of. -/
def Call.movement? (c : Call) : Option Movement :=
  match c.request with
  | .record position => some ⟨c.now, position⟩
  | .flush | .look => none

/-- The movements among calls. -/
def movements (calls : List Call) : List Movement := calls.filterMap Call.movement?

/-- The sampler after a call. -/
def call (s : PointerSampler) (c : Call) : PointerSampler :=
  match c.request with
  | .record position => (s.record position c.now).2
  | .flush => s.flush c.now
  | .look => (s.positionAt c.now).2

/-- The sampler after calls. -/
def run (s : PointerSampler) (calls : List Call) : PointerSampler := calls.foldl call s

/-- No call comes before an earlier one. -/
def InOrder (calls : List Call) : Prop := calls.Pairwise (·.now ≤ ·.now)

/-- The calls come in order, and the window of none of them is cut off by the end of the clock. -/
structure InTime (throttleMs : Nat) (calls : List Call) : Prop where
  ordered : InOrder calls
  window : ∀ c ∈ calls, c.now + throttleMs ≤ lastInstant

/-! ## Movements that take effect -/

/-- A movement that has taken effect: its number, the instant as of which it has, and whether it had
    to wait for that. -/
structure Commit where
  movement : Nat
  since : Instant
  waited : Bool
deriving DecidableEq

/-- After `count` movements, the one that waits takes effect in a look. It is the last one. -/
def lookCommits (s : PointerSampler) (count : Nat) (now : Instant) : List Commit :=
  match s.waiting, (s.flush now).waiting, (s.flush now).since with
  | some _, none, some since => [⟨count - 1, since, true⟩]
  | _, _, _ => []

/-- What takes effect in a call: the movement that waits, and then the one that is made. -/
def callCommits (s : PointerSampler) (count : Nat) (c : Call) : List Commit :=
  s.lookCommits count c.now ++
    match c.movement? with
    | some m => if (s.record m.position m.now).1 then [⟨count, m.now, false⟩] else []
    | none => []

/-- What takes effect in calls, after `count` movements. -/
def commitsFrom (s : PointerSampler) (count : Nat) : List Call → List Commit
  | [] => []
  | c :: rest =>
    s.callCommits count c ++ (s.call c).commitsFrom (count + (movements [c]).length) rest

/-- The movements that take effect in the calls of a new sampler. -/
def commits (throttleMs : Nat) (calls : List Call) : List Commit :=
  (new throttleMs).commitsFrom 0 calls

/-- The movement that is in effect after calls of a new sampler. -/
def shown? (throttleMs : Nat) (calls : List Call) : Option Nat :=
  (commits throttleMs calls).getLast?.map (·.movement)

section Append

variable (s : PointerSampler) (calls later : List Call) (c : Call)

theorem movements_append : movements (calls ++ later) = movements calls ++ movements later :=
  List.filterMap_append

theorem movements_concat : movements (calls ++ [c]) = movements calls ++ c.movement?.toList := by
  cases hmovement : c.movement? <;> simp [movements, hmovement]

theorem run_append : s.run (calls ++ later) = (s.run calls).run later := List.foldl_append

theorem run_concat : s.run (calls ++ [c]) = (s.run calls).call c := by
  rw [run_append]
  rfl

theorem commitsFrom_append (count : Nat) :
    s.commitsFrom count (calls ++ later)
      = s.commitsFrom count calls
        ++ (s.run calls).commitsFrom (count + (movements calls).length) later := by
  induction calls generalizing s count with
  | nil => rfl
  | cons c rest ih =>
      have hcount : count + (movements [c]).length + (movements rest).length
          = count + (movements (c :: rest)).length := by
        have hsplit := congrArg List.length (movements_append [c] rest)
        simp only [List.singleton_append, List.length_append] at hsplit
        omega
      rw [List.cons_append, commitsFrom, ih, hcount, commitsFrom, List.append_assoc]
      rfl

theorem commits_append (throttleMs : Nat) :
    commits throttleMs (calls ++ later)
      = commits throttleMs calls
        ++ ((new throttleMs).run calls).commitsFrom (movements calls).length later := by
  rw [commits, commitsFrom_append, Nat.zero_add]
  rfl

theorem commits_concat (throttleMs : Nat) :
    commits throttleMs (calls ++ [c])
      = commits throttleMs calls
        ++ ((new throttleMs).run calls).callCommits (movements calls).length c := by
  rw [commits_append, commitsFrom, commitsFrom, List.append_nil]

end Append

theorem InOrder.of_concat {calls : List Call} {c : Call} (h : InOrder (calls ++ [c])) :
    InOrder calls ∧ ∀ e ∈ calls, e.now ≤ c.now := by
  obtain ⟨hcalls, -, hlast⟩ := List.pairwise_append.1 h
  exact ⟨hcalls, fun e he => hlast e he c List.mem_cons_self⟩

/-! ## Looks in between -/

/-- The sampler after a movement. -/
def note (s : PointerSampler) (m : Movement) : PointerSampler := (s.record m.position m.now).2

/-- A call notes a movement at its own instant, or it is a look. -/
theorem call_cases (c : Call) :
    (c.movement? = none ∧ ∀ s : PointerSampler, s.call c = s.flush c.now) ∨
      ∃ m, c.movement? = some m ∧ m.now = c.now ∧ ∀ s : PointerSampler, s.call c = s.note m := by
  obtain ⟨instant, request⟩ := c
  cases request with
  | record position =>
      right
      exact ⟨⟨instant, position⟩, rfl, rfl, fun _ => rfl⟩
  | flush =>
      left
      exact ⟨rfl, fun _ => rfl⟩
  | look =>
      left
      exact ⟨rfl, fun _ => rfl⟩

/-- A movement begins with a look. -/
theorem record_congr {s t : PointerSampler} {now : Instant} (h : s.flush now = t.flush now)
    (position : Point) : s.record position now = t.record position now := by
  unfold record
  rw [h]

/-- After the next look nothing is left of calls but the movements among them. -/
theorem flush_run {calls : List Call} (h : InOrder calls) (s : PointerSampler) {now : Instant}
    (hnow : ∀ c ∈ calls, c.now ≤ now) :
    (s.run calls).flush now = ((movements calls).foldl note s).flush now := by
  induction calls using List.reverseRecOn generalizing now with
  | nil => rfl
  | append_singleton calls c ih =>
      obtain ⟨hcalls, hbefore⟩ := h.of_concat
      have hc : c.now ≤ now := hnow c (by simp)
      rw [run_concat, movements_concat]
      rcases call_cases c with ⟨hlook, hcall⟩ | ⟨m, hmovement, hm, hcall⟩
      · rw [hlook, hcall, flush_flush _ hc, Option.toList_none, List.append_nil]
        exact ih hcalls fun e he => Nat.le_trans (hbefore e he) hc
      · -- the samplers agree after a look at the instant of the movement
        have hlook : (s.run calls).flush m.now = ((movements calls).foldl note s).flush m.now :=
          ih hcalls (hm ▸ hbefore)
        rw [hmovement, hcall, Option.toList_some, List.foldl_concat, note, note, record_congr hlook]

/-! ## The ledger -/

namespace Commit

/-- The movements that were made after that of a commit. -/
def later (c : Commit) (ms : List Movement) : List Movement := ms.drop (c.movement + 1)

/-- A movement that waited is the last one that was made before it takes effect; one that did not
    takes effect when it is made. -/
def Fits (ms : List Movement) (c : Commit) : Prop :=
  ∃ m, ms[c.movement]? = some m ∧
    if c.waited then m.now < c.since ∧ ∀ m' ∈ c.later ms, c.since ≤ m'.now else m.now = c.since

/-- The next movement that takes effect is a later one, and it does so no earlier than the throttle
    allows; just then if it waited. -/
structure Follows (throttleMs : Nat) (b c : Commit) : Prop where
  movement_lt : b.movement < c.movement
  spaced : b.since + throttleMs ≤ c.since
  waited : c.waited = true → c.since = b.since + throttleMs

theorem later_concat {c : Commit} {ms : List Movement} (h : c.movement < ms.length) (m : Movement) :
    c.later (ms ++ [m]) = c.later ms ++ [m] := List.drop_append_of_le_length h

/-- The last of the movements after a commit is the last of all. -/
theorem last_of_later {c : Commit} {ms : List Movement} {m : Movement}
    (h : (c.later ms).getLast? = some m) :
    c.movement + 1 < ms.length ∧ ms[ms.length - 1]? = some m := by
  rw [later, List.getLast?_drop] at h
  split at h
  · cases h
  · next hlt => exact ⟨Nat.lt_of_not_le hlt, by rw [← List.getLast?_eq_getElem?, h]⟩

theorem Fits.concat {ms : List Movement} {c : Commit} (h : c.Fits ms) {m : Movement}
    (hnow : c.since ≤ m.now) : c.Fits (ms ++ [m]) := by
  obtain ⟨own, hown, hfits⟩ := h
  have hlt : c.movement < ms.length := (List.getElem?_eq_some_iff.1 hown).1
  refine ⟨own, by rw [List.getElem?_append_left hlt, hown], ?_⟩
  split at hfits
  · next hwaited =>
      obtain ⟨hbefore, hafter⟩ := hfits
      rw [if_pos hwaited, later_concat hlt, List.forall_mem_append, List.forall_mem_singleton]
      exact ⟨hbefore, hafter, hnow⟩
  · next hwaited => rw [if_neg hwaited, hfits]

end Commit

/-- What a sampler holds that has been asked to take note of movements, by the last one that took
    effect: its position is shown, the movements after it were made in its window, and the last of
    these waits. -/
inductive Holds (throttleMs : Nat) : List Movement → Option Commit → PointerSampler → Prop
  | unmoved : Holds throttleMs [] none (new throttleMs)
  | moved {ms : List Movement} {c : Commit} {own : Movement} (hown : ms[c.movement]? = some own)
      (hwindow : ∀ m ∈ c.later ms, c.since ≤ m.now ∧ m.now < c.since + throttleMs) :
      Holds throttleMs ms (some c)
        ⟨own.position, some c.since, (c.later ms).getLast?.map (·.position), throttleMs⟩

section Steps

variable {throttleMs : Nat} {ms : List Movement} {last : Option Commit} {s : PointerSampler}

/-- The window of a commit that is not in the future ends within the clock. -/
theorem after_since {now since : Instant} (hpast : since ≤ now)
    (hend : now + throttleMs ≤ lastInstant) : after since throttleMs = since + throttleMs := by
  unfold after
  lia

/-- A look either finds nothing that is due, or the last movement takes effect as of the end of the
    window. -/
theorem Holds.flush_cases {now : Instant} (h : Holds throttleMs ms last s)
    (hpast : ∀ c ∈ last, c.since ≤ now) (hend : now + throttleMs ≤ lastInstant) :
    (s.flush now = s ∧ s.lookCommits ms.length now = [] ∧
      ∀ c ∈ last, c.later ms ≠ [] → now < c.since + throttleMs) ∨
    ∃ b c, last = some b ∧ s.lookCommits ms.length now = [c] ∧ b.Follows throttleMs c ∧
      c.since ≤ now ∧ c.Fits ms ∧ c.later ms = [] ∧
      Holds throttleMs ms (some c) (s.flush now) := by
  cases h with
  | unmoved => exact Or.inl ⟨rfl, rfl, nofun⟩
  | @moved _ b own hown hwindow =>
      have hdue := after_since (hpast b rfl) hend
      cases hlast : (b.later ms).getLast? with
      | none =>
          refine Or.inl ⟨rfl, rfl, ?_⟩
          rintro c ⟨⟩ hsome
          exact absurd (List.getLast?_eq_none_iff.1 hlast) hsome
      | some latest =>
          by_cases hover : b.since + throttleMs ≤ now
          · obtain ⟨hlt, hlatest⟩ := Commit.last_of_later hlast
            let c : Commit := ⟨ms.length - 1, b.since + throttleMs, true⟩
            have hlater : c.later ms = [] :=
              List.drop_eq_nil_of_le (by show ms.length ≤ ms.length - 1 + 1; omega)
            refine Or.inr ⟨b, c, rfl, ?_, ?_, hover, ?_, hlater, ?_⟩
            · simp [lookCommits, flush, hdue, hover, c]
            · exact ⟨by show b.movement < ms.length - 1; omega, Nat.le_refl _, fun _ => rfl⟩
            · refine ⟨latest, hlatest, (hwindow latest (List.mem_of_getLast? hlast)).2, ?_⟩
              rw [hlater]
              exact nofun
            · have hholds : Holds throttleMs ms (some c)
                  ⟨latest.position, some c.since, (c.later ms).getLast?.map (·.position), throttleMs⟩ :=
                .moved hlatest (by rw [hlater]; exact nofun)
              rw [hlater] at hholds
              simpa [flush, hdue, hover] using hholds
          · refine Or.inl ⟨by simp [flush, hdue, hover], by simp [lookCommits, flush, hdue, hover], ?_⟩
            rintro c ⟨⟩ -
            exact Nat.lt_of_not_le hover

/-- After a look, a movement takes effect at once if none has within the throttle, and waits
    otherwise. -/
theorem Holds.record_cases {m : Movement} (h : Holds throttleMs ms last (s.flush m.now))
    (hpast : ∀ c ∈ last, c.since ≤ m.now) (hend : m.now + throttleMs ≤ lastInstant) :
    ((s.record m.position m.now).1 = true ∧
      (∀ b ∈ last, b.Follows throttleMs ⟨ms.length, m.now, false⟩) ∧
      Holds throttleMs (ms ++ [m]) (some ⟨ms.length, m.now, false⟩) (s.note m)) ∨
    ((s.record m.position m.now).1 = false ∧ Holds throttleMs (ms ++ [m]) last (s.note m)) := by
  let c : Commit := ⟨ms.length, m.now, false⟩
  have hlater : c.later (ms ++ [m]) = [] := List.drop_eq_nil_of_le (by simp [c])
  have hnew : Holds throttleMs (ms ++ [m]) (some c)
      ⟨m.position, some m.now, (c.later (ms ++ [m])).getLast?.map (·.position), throttleMs⟩ :=
    .moved (by simp [c]) (by rw [hlater]; exact nofun)
  rw [hlater] at hnew
  rw [note, record]
  generalize s.flush m.now = t at h
  cases h with
  | unmoved => exact Or.inl ⟨rfl, nofun, hnew⟩
  | @moved _ b own hown hwindow =>
      have hdue := after_since (hpast b rfl) hend
      have hlt : b.movement < ms.length := (List.getElem?_eq_some_iff.1 hown).1
      by_cases hopen : b.since + throttleMs ≤ m.now
      · left
        simp only [isOpen, hdue, hopen, decide_true, ↓reduceIte]
        refine ⟨trivial, ?_, hnew⟩
        rintro b ⟨⟩
        exact ⟨hlt, hopen, nofun⟩
      · right
        simp only [isOpen, hdue, hopen, decide_false, Bool.false_eq_true, ↓reduceIte]
        refine ⟨trivial, ?_⟩
        have hlater := Commit.later_concat hlt m
        have hholds : Holds throttleMs (ms ++ [m]) (some b) ⟨own.position, some b.since,
            (b.later (ms ++ [m])).getLast?.map (·.position), throttleMs⟩ := by
          refine .moved (by rw [List.getElem?_append_left hlt, hown]) ?_
          rw [hlater, List.forall_mem_append, List.forall_mem_singleton]
          exact ⟨hwindow, hpast b rfl, Nat.lt_of_not_le hopen⟩
        rwa [hlater, List.getLast?_concat] at hholds

end Steps

/-- The movements that were made until an instant, and those that took effect. -/
structure Ledger (throttleMs : Nat) (now : Instant) (ms : List Movement) (cs : List Commit) :
    Prop where
  past : ∀ c ∈ cs, c.since ≤ now
  fits : ∀ c ∈ cs, c.Fits ms
  chain : cs.IsChain (Commit.Follows throttleMs)
  head : ∀ c ∈ cs.head?, c.waited = false

namespace Ledger

variable {throttleMs : Nat} {now later : Instant} {ms : List Movement} {cs : List Commit}
  {s : PointerSampler}

theorem empty (throttleMs : Nat) (now : Instant) : Ledger throttleMs now [] [] :=
  ⟨nofun, nofun, .nil, nofun⟩

theorem mono (h : Ledger throttleMs now ms cs) (hnow : now ≤ later) :
    Ledger throttleMs later ms cs :=
  { h with past := fun c hc => Nat.le_trans (h.past c hc) hnow }

/-- One more movement is made. -/
theorem movement (h : Ledger throttleMs now ms cs) {m : Movement} (hnow : now ≤ m.now) :
    Ledger throttleMs now (ms ++ [m]) cs :=
  { h with fits := fun c hc => (h.fits c hc).concat (Nat.le_trans (h.past c hc) hnow) }

/-- One more movement takes effect. -/
theorem commit (h : Ledger throttleMs now ms cs) {c : Commit} (hpast : c.since ≤ now)
    (hfits : c.Fits ms) (hfollows : ∀ b ∈ cs.getLast?, b.Follows throttleMs c)
    (hhead : cs = [] → c.waited = false) : Ledger throttleMs now ms (cs ++ [c]) where
  past := by
    rw [List.forall_mem_append, List.forall_mem_singleton]
    exact ⟨h.past, hpast⟩
  fits := by
    rw [List.forall_mem_append, List.forall_mem_singleton]
    exact ⟨h.fits, hfits⟩
  chain := by
    refine List.isChain_append.2 ⟨h.chain, .singleton c, fun b hb e he => ?_⟩
    cases he
    exact hfollows b hb
  head := by
    cases cs with
    | nil => simpa using hhead
    | cons b rest => exact h.head

/-- Looking at the sampler keeps the ledger, and nothing that waits is due then. -/
theorem look (h : Ledger throttleMs now ms cs) (hs : Holds throttleMs ms cs.getLast? s)
    (hend : now + throttleMs ≤ lastInstant) :
    Ledger throttleMs now ms (cs ++ s.lookCommits ms.length now) ∧
      Holds throttleMs ms (cs ++ s.lookCommits ms.length now).getLast? (s.flush now) ∧
      ∀ c ∈ (cs ++ s.lookCommits ms.length now).getLast?, c.later ms ≠ [] →
        now < c.since + throttleMs := by
  have hpast : ∀ c ∈ cs.getLast?, c.since ≤ now := fun c hc => h.past c (List.mem_of_getLast? hc)
  rcases hs.flush_cases hpast hend with
    ⟨hflush, hnone, hwaits⟩ | ⟨b, c, hb, hone, hfollows, hsince, hfits, hlater, hholds⟩
  · rw [hflush, hnone, List.append_nil]
    exact ⟨h, hs, hwaits⟩
  · rw [hone, List.getLast?_concat]
    refine ⟨h.commit hsince hfits ?_ ?_, hholds, ?_⟩
    · rw [hb]
      rintro _ ⟨⟩
      exact hfollows
    · rintro rfl
      cases hb
    · rintro _ ⟨⟩ hsome
      exact absurd hlater hsome

/-- Every call keeps the ledger. -/
theorem call (h : Ledger throttleMs now ms cs) (hs : Holds throttleMs ms cs.getLast? s) {c : Call}
    (hnow : now ≤ c.now) (hend : c.now + throttleMs ≤ lastInstant) :
    Ledger throttleMs c.now (ms ++ c.movement?.toList) (cs ++ s.callCommits ms.length c) ∧
      Holds throttleMs (ms ++ c.movement?.toList) (cs ++ s.callCommits ms.length c).getLast?
        (s.call c) := by
  obtain ⟨hlook, hholds, -⟩ := (h.mono hnow).look hs hend
  rw [callCommits]
  rcases call_cases c with ⟨hnone, hcall⟩ | ⟨m, hmovement, hm, hcall⟩
  · rw [hnone, hcall, Option.toList_none, List.append_nil, List.append_nil]
    exact ⟨hlook, hholds⟩
  · rw [hmovement, hcall, Option.toList_some, ← List.append_assoc]
    rw [← hm] at hlook hholds hend ⊢
    have hpast := fun b hb => hlook.past b (List.mem_of_getLast? hb)
    rcases hholds.record_cases hpast hend with ⟨htaken, hfollows, hnew⟩ | ⟨hwaits, hsame⟩
    · dsimp only
      rw [if_pos htaken, List.getLast?_concat]
      refine ⟨(hlook.movement (Nat.le_refl _)).commit (Nat.le_refl _) ?_ hfollows fun _ => rfl, hnew⟩
      exact ⟨m, by simp, rfl⟩
    · dsimp only
      rw [if_neg (by simp [hwaits]), List.append_nil]
      exact ⟨hlook.movement (Nat.le_refl _), hsame⟩

end Ledger

/-- The ledger of calls that come in time. -/
theorem InTime.ledger {throttleMs : Nat} {calls : List Call} (h : InTime throttleMs calls)
    {now : Instant} (hnow : ∀ c ∈ calls, c.now ≤ now) :
    Ledger throttleMs now (movements calls) (commits throttleMs calls) ∧
      Holds throttleMs (movements calls) (commits throttleMs calls).getLast?
        ((new throttleMs).run calls) := by
  induction calls using List.reverseRecOn generalizing now with
  | nil => exact ⟨.empty throttleMs now, .unmoved⟩
  | append_singleton calls c ih =>
      obtain ⟨hcalls, hbefore⟩ := h.ordered.of_concat
      have hearlier : InTime throttleMs calls :=
        ⟨hcalls, fun e he => h.window e (List.mem_append_left _ he)⟩
      obtain ⟨hledger, hholds⟩ := ih hearlier hbefore
      have hc := h.window c (by simp)
      obtain ⟨hledger', hholds'⟩ := hledger.call hholds (Nat.le_refl c.now) hc
      rw [commits_concat, movements_concat, run_concat]
      exact ⟨hledger'.mono (hnow c (by simp)), hholds'⟩

/-! ## Main result -/

section Shown

variable {throttleMs : Nat} {ms : List Movement} {last : Option Commit} {s : PointerSampler}

theorem Holds.since_eq (h : Holds throttleMs ms last s) : s.since = last.map (·.since) := by
  cases h with
  | unmoved => rfl
  | moved _ _ => rfl

theorem Holds.current_eq (h : Holds throttleMs ms last s) :
    s.current = (last.bind fun c => ms[c.movement]?).elim .zero (·.position) := by
  cases h with
  | unmoved => rfl
  | moved hown _ => simp [hown]

/-- A movement of which the throttle is over when nothing is due is in effect, or a later one is. -/
theorem Holds.exists_shown (h : Holds throttleMs ms last s) {now : Instant}
    (hwaits : ∀ c ∈ last, c.later ms ≠ [] → now < c.since + throttleMs) {i : Nat} {m : Movement}
    (hm : ms[i]? = some m) (hover : m.now + throttleMs ≤ now) :
    ∃ c m', last = some c ∧ i ≤ c.movement ∧ ms[c.movement]? = some m' ∧
      s.current = m'.position := by
  cases h with
  | unmoved => cases hm
  | @moved _ c own hown hwindow =>
      refine ⟨c, own, rfl, ?_, hown, rfl⟩
      by_contra hlt
      -- otherwise it was made in the window that is still open
      have hlater : m ∈ c.later ms :=
        List.mem_of_getElem? (i := i - (c.movement + 1)) (by
          rw [Commit.later, List.getElem?_drop, Nat.add_sub_cancel' (by omega), hm])
      have hopen := hwaits c rfl (List.ne_nil_of_mem hlater)
      have hmade := (hwindow m hlater).1
      lia

end Shown

/-- What is in effect is followed by later movements only. -/
theorem Ledger.exists_shown_le {throttleMs : Nat} {now : Instant} {ms : List Movement}
    {cs later : List Commit} (h : Ledger throttleMs now ms (cs ++ later)) {b : Commit}
    (hb : cs.getLast? = some b) :
    ∃ c, (cs ++ later).getLast? = some c ∧ b.movement ≤ c.movement := by
  have hchain : ((cs ++ later).map (·.movement)).IsChain (· < ·) :=
    (List.isChain_map _).2 (h.chain.imp fun _ _ hfollows => hfollows.movement_lt)
  have hincreasing := List.pairwise_map.1 hchain.pairwise
  cases hlast : later.getLast? with
  | none =>
      rw [List.getLast?_eq_none_iff.1 hlast, List.append_nil]
      exact ⟨b, hb, Nat.le_refl _⟩
  | some c =>
      refine ⟨c, by rw [List.getLast?_append, hlast]; rfl, Nat.le_of_lt ?_⟩
      exact (List.pairwise_append.1 hincreasing).2.2 b (List.mem_of_getLast? hb) c
        (List.mem_of_getLast? hlast)

/-- A sampler that is called in time shows the movement that took effect last. The movements that take
    effect are later and later ones, at least a throttle apart: the first of them as soon as it is made,
    and each of the others either as soon as it is made or, if it had to wait, as of the end of the
    window of the one before, being the last movement that was made before then. Once its throttle is
    over, a movement is in effect unless a later one is, and it does not come back after a later one.
    However often the sampler is looked at in between, the next look shows the same position, and the
    next movement is answered in the same way. -/
theorem throttling_loses_nothing {throttleMs : Nat} {calls : List Call}
    (h : InTime throttleMs calls) :
    (((new throttleMs).run calls).since = (commits throttleMs calls).getLast?.map (·.since) ∧
      ((new throttleMs).run calls).current
        = ((shown? throttleMs calls).bind ((movements calls)[·]?)).elim .zero (·.position)) ∧
    ((commits throttleMs calls).IsChain (Commit.Follows throttleMs) ∧
      ∀ c ∈ (commits throttleMs calls).head?, c.waited = false) ∧
    (∀ c ∈ commits throttleMs calls, c.Fits (movements calls)) ∧
    (∀ now, InTime throttleMs (calls ++ [⟨now, .look⟩]) → ∀ i m, (movements calls)[i]? = some m →
      m.now + throttleMs ≤ now →
        ∃ j m', shown? throttleMs (calls ++ [⟨now, .look⟩]) = some j ∧ i ≤ j ∧
          (movements calls)[j]? = some m' ∧
          (((new throttleMs).run calls).positionAt now).1 = m'.position) ∧
    (∀ earlier i, earlier <+: calls → shown? throttleMs earlier = some i →
      ∃ j, shown? throttleMs calls = some j ∧ i ≤ j) ∧
    ∀ others, InOrder others → movements others = movements calls → ∀ now,
      (∀ c ∈ calls, c.now ≤ now) → (∀ c ∈ others, c.now ≤ now) →
        ((new throttleMs).run others).positionAt now = ((new throttleMs).run calls).positionAt now ∧
        ∀ position, ((new throttleMs).run others).record position now
          = ((new throttleMs).run calls).record position now := by
  have hwithin : ∀ c ∈ calls, c.now ≤ lastInstant := fun c hc =>
    Nat.le_trans (Nat.le_add_right _ _) (h.window c hc)
  obtain ⟨hledger, hholds⟩ := h.ledger hwithin
  refine ⟨⟨hholds.since_eq, ?_⟩, ⟨hledger.chain, hledger.head⟩, hledger.fits, ?_, ?_, ?_⟩
  · rw [hholds.current_eq, shown?, Option.bind_map]
    rfl
  · intro now hlook i m hm hover
    obtain ⟨-, hbefore⟩ := hlook.ordered.of_concat
    obtain ⟨hledger, hholds⟩ := h.ledger hbefore
    obtain ⟨-, hshown, hwaits⟩ := hledger.look hholds (hlook.window ⟨now, .look⟩ (by simp))
    obtain ⟨c, m', hlast, hle, hm', hcurrent⟩ := hshown.exists_shown hwaits hm hover
    refine ⟨c.movement, m', ?_, hle, hm', hcurrent⟩
    have hcommits : ((new throttleMs).run calls).callCommits (movements calls).length ⟨now, .look⟩
        = ((new throttleMs).run calls).lookCommits (movements calls).length now :=
      List.append_nil _
    rw [shown?, commits_concat, hcommits, hlast]
    rfl
  · rintro earlier i ⟨later, rfl⟩ hi
    obtain ⟨b, hb, rfl⟩ := Option.map_eq_some_iff.1 hi
    rw [commits_append] at hledger
    obtain ⟨c, hc, hle⟩ := hledger.exists_shown_le hb
    exact ⟨c.movement, by rw [shown?, commits_append, hc]; rfl, hle⟩
  · intro others hothers hsame now hcalls hlater
    have hflush : ((new throttleMs).run others).flush now
        = ((new throttleMs).run calls).flush now := by
      rw [flush_run hothers _ hlater, flush_run h.ordered _ hcalls, hsame]
    refine ⟨?_, record_congr hflush⟩
    unfold positionAt
    rw [hflush]

/-- Three movements within a throttle of 200 ms, a look at the end of their window, and a movement in the
    next one: the first takes effect at once, the third as of the end of the window, and the last one
    is in effect when its throttle is over. -/
theorem throttling_of_four_movements :
    let calls : List Call := [⟨0, .record ⟨1, 1⟩⟩, ⟨50, .record ⟨2, 2⟩⟩, ⟨120, .record ⟨5, 5⟩⟩,
      ⟨200, .look⟩, ⟨300, .record ⟨6, 6⟩⟩]
    InTime 200 calls ∧ commits 200 calls = [⟨0, 0, false⟩, ⟨2, 200, true⟩] ∧
      (((new 200).run calls).positionAt 500).1 = ⟨6, 6⟩ := by
  intro calls
  have hcalls : InTime 200 calls := ⟨by simp [InOrder, calls], by simp [calls, lastInstant]⟩
  have hlook : InTime 200 (calls ++ [⟨500, .look⟩]) :=
    ⟨by simp [InOrder, calls], by simp [calls, lastInstant]⟩
  refine ⟨hcalls, by decide, ?_⟩
  obtain ⟨-, -, -, harrives, -, -⟩ := throttling_loses_nothing hcalls
  obtain ⟨j, m, -, hle, hm, hshown⟩ := harrives 500 hlook 3 ⟨300, ⟨6, 6⟩⟩ rfl (by decide)
  have hlt : j < 4 := (List.getElem?_eq_some_iff.1 hm).1
  obtain rfl : j = 3 := by omega
  cases hm
  exact hshown

end PointerSampler

end SpriteStage

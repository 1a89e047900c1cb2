import Mathlib.Data.List.Chain
import SpriteStage.Proofs.Walks
set_option autoImplicit false

/-! # One turn for each approach

The cats turn round in a step that brings them nearer than the threshold while the latch is clear. A
step leaves the latch set just if the cats are near (`Demo.turns_stride`), so between two turns there is
a step after which they were apart, whatever the clamping, the resting place and changes of the width
do to their places (`one_turn_per_approach`). Nothing but a step moves the cats, and each turn takes
up the directions at which the one before it has left them.

The places are never computed with: all that counts is how their distance compares with the
threshold. -/

namespace SpriteStage

/-! ## Directions -/

namespace Cats

/-- Each cat looks one way or the other. -/
def Directed (c : Cats) : Prop := (c.dir1 = 1 ∨ c.dir1 = -1) ∧ (c.dir2 = 1 ∨ c.dir2 = -1)

/-- The cats look at each other or away from each other. -/
def Opposed (c : Cats) : Prop := c.directions = (1, -1) ∨ c.directions = (-1, 1)

/-- The directions of both cats after a turn. -/
def reversed (c : Cats) : Int8 × Int8 := (-c.dir1, -c.dir2)

theorem Directed.of_directions {c c' : Cats} (h : c.Directed)
    (hc : c'.directions = c.directions ∨ c'.directions = c.reversed) : c'.Directed := by
  simp only [directions, reversed, Prod.mk.injEq] at hc
  obtain ⟨h₁, h₂⟩ := h
  rcases hc with ⟨heq₁, heq₂⟩ | ⟨heq₁, heq₂⟩ <;> rw [Directed, heq₁, heq₂]
  · exact ⟨h₁, h₂⟩
  · constructor
    · rcases h₁ with h₁ | h₁ <;> simp [h₁]
    · rcases h₂ with h₂ | h₂ <;> simp [h₂]

theorem Opposed.of_directions {c c' : Cats} (h : c.Opposed)
    (hc : c'.directions = c.directions ∨ c'.directions = c.reversed) : c'.Opposed := by
  rcases hc with heq | heq
  · rw [Opposed, heq]
    exact h
  · simp only [Opposed, directions, reversed, Prod.mk.injEq] at h heq ⊢
    obtain ⟨heq₁, heq₂⟩ := heq
    rcases h with ⟨h₁, h₂⟩ | ⟨h₁, h₂⟩ <;> simp [heq₁, heq₂, h₁, h₂]

end Cats

namespace Demo

/-! ## Calls -/

/-- What a demo can be asked to do. -/
inductive Call where
  | step
  | resize (width : Float)
  | openWindow
  | closeWindow
  | start

/-- The demo after a call. -/
def call (d : Demo) : Call → Demo
  | .step => d.step.1
  | .resize width => d.resize width
  | .openWindow => d.openWindow
  | .closeWindow => d.closeWindow
  | .start => d.start?.getD d

/-- The demo after calls. -/
def run (d : Demo) (calls : List Call) : Demo := calls.foldl call d

/-- A step of the cats: the demo before and after it, and the turn if there was one. -/
structure Stride where
  before : Demo
  after : Demo
  flip? : Option Flip

/-- The step that is made next. -/
def stride (d : Demo) : Stride := ⟨d, d.step.1, d.step.2⟩

/-- The steps among calls. -/
def strides (d : Demo) : List Call → List Stride
  | [] => []
  | .step :: rest => d.stride :: d.step.1.strides rest
  | c :: rest => (d.call c).strides rest

/-- What is promised of a step, given its number: whether the cats are near afterwards decides about
    the latch, and with the latch before it about a turn; and only a turn changes the directions. -/
structure Stride.Turns (threshold : Float) (tick : Nat) (s : Stride) : Prop where
  latch_iff : s.after.cats.colliding = true ↔ s.after.cats.distance < threshold
  flips_iff : s.flip?.isSome = true ↔
    s.after.cats.distance < threshold ∧ s.before.cats.colliding = false
  still : s.flip? = none → s.after.cats.directions = s.before.cats.directions
  turned : ∀ f, s.flip? = some f → s.after.cats.directions = s.before.cats.reversed ∧
    f = ⟨tick, s.before.cats.directions, s.after.cats.directions, s.after.cats.distance⟩

theorem turns_stride (d : Demo) : d.stride.Turns d.config.threshold (d.ticks + 1) := by
  have hlatch : (walk d.config d.cats).colliding = d.cats.colliding := rfl
  unfold stride step
  by_cases hnear : (walk d.config d.cats).distance < d.config.threshold
  · cases hset : d.cats.colliding with
    | true =>
        simp only [hnear, ↓reduceIte, hlatch, hset]
        exact ⟨by simp [hnear, hlatch, hset], by simp [hset], fun _ => rfl, nofun⟩
    | false =>
        simp only [hnear, ↓reduceIte, hlatch, hset]
        refine ⟨?_, ?_, nofun, ?_⟩
        · exact ⟨fun _ => hnear, fun _ => rfl⟩
        · exact ⟨fun _ => ⟨hnear, hset⟩, fun _ => rfl⟩
        · rintro f ⟨⟩
          exact ⟨rfl, rfl⟩
  · simp only [hnear, ↓reduceIte]
    refine ⟨?_, ?_, fun _ => rfl, nofun⟩
    · exact ⟨nofun, fun hlt => absurd hlt hnear⟩
    · exact ⟨nofun, fun hlt => absurd hlt.1 hnear⟩

/-- A step turns the cats round or leaves their directions. -/
theorem Stride.Turns.directions {threshold : Float} {tick : Nat} {s : Stride}
    (h : s.Turns threshold tick) : s.after.cats.directions = s.before.cats.directions ∨
      s.after.cats.directions = s.before.cats.reversed := by
  cases hflip : s.flip? with
  | none => exact Or.inl (h.still hflip)
  | some f => exact Or.inr (h.turned f hflip).1

/-! ## Rows of calls -/

/-- The cats have not moved. -/
structure Stands (d d' : Demo) : Prop where
  cats : d'.cats = d.cats
  ticks : d'.ticks = d.ticks
  threshold : d'.config.threshold = d.config.threshold

/-- What is a step is counted among the steps, and what is none leaves the cats where they are. -/
theorem call_cases (d : Demo) (c : Call) :
    (c = .step ∧ ∀ rest, d.strides (c :: rest) = d.stride :: (d.call c).strides rest) ∨
      (d.Stands (d.call c) ∧ ∀ rest, d.strides (c :: rest) = (d.call c).strides rest) := by
  cases c with
  | step =>
      left
      exact ⟨rfl, fun _ => rfl⟩
  | start =>
      right
      refine ⟨?_, fun _ => rfl⟩
      simp only [call, start?]
      split <;> exact ⟨rfl, rfl, rfl⟩
  | resize _ | openWindow | closeWindow =>
      right
      exact ⟨⟨rfl, rfl, rfl⟩, fun _ => rfl⟩

theorem run_cons (d : Demo) (c : Call) (rest : List Call) :
    d.run (c :: rest) = (d.call c).run rest := rfl

theorem run_append (d : Demo) (calls later : List Call) :
    d.run (calls ++ later) = (d.run calls).run later := List.foldl_append

/-- Every step keeps what is promised. -/
theorem turns_strides (d : Demo) (calls : List Call) {i : Nat} {s : Stride}
    (h : (d.strides calls)[i]? = some s) : s.Turns d.config.threshold (d.ticks + i + 1) := by
  induction calls generalizing d i with
  | nil => cases h
  | cons c rest ih =>
      rcases d.call_cases c with ⟨rfl, hstrides⟩ | ⟨hstands, hstrides⟩
      · rw [hstrides] at h
        cases i with
        | zero =>
            cases h
            exact d.turns_stride
        | succ i =>
            have hrest := ih d.step.1 h
            rw [step_config, step_ticks] at hrest
            rwa [Nat.add_assoc d.ticks, Nat.add_comm 1 i] at hrest
      · rw [hstrides] at h
        have hrest := ih _ h
        rwa [hstands.threshold, hstands.ticks] at hrest

/-- Each step begins where the one before it has left the cats, the first one where they were, and
    after the last one they stay where they are. -/
theorem chain_strides (d : Demo) (calls : List Call) :
    ((d.strides calls).IsChain fun a b => b.before.cats = a.after.cats) ∧
      (∀ a ∈ (d.strides calls).head?, a.before.cats = d.cats) ∧
      (d.run calls).cats = (d.strides calls).getLast?.elim d.cats (·.after.cats) := by
  induction calls generalizing d with
  | nil =>
      refine ⟨.nil, ?_, rfl⟩
      intro a ha
      cases ha
  | cons c rest ih =>
      obtain ⟨hchain, hhead, hlast⟩ := ih (d.call c)
      rw [run_cons]
      rcases d.call_cases c with ⟨rfl, hstrides⟩ | ⟨hstands, hstrides⟩
      · rw [hstrides]
        refine ⟨List.isChain_cons.2 ⟨hhead, hchain⟩, ?_, ?_⟩
        · rintro _ ⟨⟩
          rfl
        · rw [hlast, List.getLast?_cons]
          cases ((d.call .step).strides rest).getLast? <;> rfl
      · rw [hstrides, ← hstands.cats]
        exact ⟨hchain, hhead, hlast⟩

/-- The turns in a row of steps. -/
def flips (row : List Stride) : List Flip := row.filterMap (·.flip?)

/-- Each turn begins with the directions that the one before it has left, and later. -/
theorem chain_flips (d : Demo) (calls : List Call) :
    ((flips (d.strides calls)).IsChain fun f g => g.before = f.after ∧ f.tick < g.tick) ∧
      ∀ f ∈ (flips (d.strides calls)).head?, f.before = d.cats.directions ∧ d.ticks < f.tick := by
  induction calls generalizing d with
  | nil => exact ⟨.nil, nofun⟩
  | cons c rest ih =>
      obtain ⟨hchain, hhead⟩ := ih (d.call c)
      rcases d.call_cases c with ⟨rfl, hstrides⟩ | ⟨hstands, hstrides⟩
      · have hturns := d.turns_stride
        have hticks : (d.call .step).ticks = d.ticks + 1 := d.step_ticks
        rw [hstrides]
        cases hflip : d.stride.flip? with
        | none =>
            rw [flips, List.filterMap_cons_none hflip]
            refine ⟨hchain, fun f hf => ?_⟩
            obtain ⟨hbefore, htick⟩ := hhead f hf
            rw [hticks] at htick
            exact ⟨hbefore.trans (hturns.still hflip), Nat.lt_of_succ_lt htick⟩
        | some f =>
            obtain ⟨-, hf⟩ := hturns.turned f hflip
            rw [flips, List.filterMap_cons_some hflip]
            refine ⟨List.isChain_cons.2 ⟨fun g hg => ?_, hchain⟩, ?_⟩
            · obtain ⟨hbefore, htick⟩ := hhead g hg
              rw [hticks] at htick
              rw [hf]
              exact ⟨hbefore, htick⟩
            · rintro _ ⟨⟩
              rw [hf]
              exact ⟨rfl, Nat.lt_succ_self _⟩
      · rw [hstrides, ← hstands.cats, ← hstands.ticks]
        exact ⟨hchain, hhead⟩

/-- Between two turns there is a step that leaves the cats apart. -/
theorem exists_apart (d : Demo) (calls : List Call) {i j : Nat} {a b : Stride}
    (ha : (d.strides calls)[i]? = some a) (hb : (d.strides calls)[j]? = some b) (hij : i < j)
    (hfirst : a.flip?.isSome = true) (hsecond : b.flip?.isSome = true) :
    ∃ k c, i < k ∧ k < j ∧ (d.strides calls)[k]? = some c ∧
      ¬ c.after.cats.distance < d.config.threshold := by
  -- the latch was clear before the second turn, so the cats were apart after the step before it
  obtain ⟨k, rfl⟩ : ∃ k, j = k + 1 := ⟨j - 1, by omega⟩
  have hlt : k + 1 < (d.strides calls).length := (List.getElem?_eq_some_iff.1 hb).1
  have hc : (d.strides calls)[k]? = some (d.strides calls)[k] :=
    List.getElem?_eq_getElem (Nat.lt_of_succ_lt hlt)
  have hlink : b.before.cats = ((d.strides calls)[k]).after.cats := by
    have hchain := List.isChain_iff_getElem.1 (d.chain_strides calls).1 k hlt
    rwa [(List.getElem?_eq_some_iff.1 hb).2] at hchain
  have hclear := ((d.turns_strides calls hb).flips_iff.1 hsecond).2
  have hapart : ¬ ((d.strides calls)[k]).after.cats.distance < d.config.threshold := by
    rw [← (d.turns_strides calls hc).latch_iff, ← hlink, hclear]
    exact Bool.false_ne_true
  refine ⟨k, _, ?_, Nat.lt_succ_self k, hc, hapart⟩
  -- and it is not that of the first turn, after which they are near
  have hne : i ≠ k := by
    rintro rfl
    rw [hc] at ha
    cases ha
    exact hapart ((d.turns_strides calls hc).flips_iff.1 hfirst).1
  omega

/-- What is kept by a turn of both cats is kept by every call. -/
theorem call_keeps {P : Cats → Prop} (hturn : ∀ c c' : Cats, P c →
    (c'.directions = c.directions ∨ c'.directions = c.reversed) → P c') {d : Demo} (h : P d.cats)
    (c : Call) : P (d.call c).cats := by
  rcases d.call_cases c with ⟨rfl, -⟩ | ⟨hstands, -⟩
  · exact hturn _ _ h d.turns_stride.directions
  · rwa [hstands.cats]

theorem run_keeps {P : Cats → Prop} (hturn : ∀ c c' : Cats, P c →
    (c'.directions = c.directions ∨ c'.directions = c.reversed) → P c') {d : Demo} (h : P d.cats)
    (calls : List Call) : P (d.run calls).cats := by
  induction calls generalizing d with
  | nil => exact h
  | cons c rest ih => exact ih (call_keeps hturn h c)

end Demo

/-! ## The demo of a stage -/

namespace Stage

/-- A timer that fires leaves the demo alone or lets the cats make a step. -/
theorem fire_demo_cases (s : Stage) (timer : Timer) :
    (s.fire timer).1.demo = s.demo ∨ (s.fire timer).1.demo = s.demo.call .step := by
  cases timer with
  | step run index => exact Or.inl (s.runStep_demo run index)
  | clear cell version =>
      left
      rcases s.fireClear_cases cell version with heq | heq <;> rw [fire, heq]
  | demoTick session =>
      rcases s.fireDemoTick_cases session with ⟨-, heq⟩ | ⟨-, -, heq⟩
      · left
        rw [fire, heq]
      · right
        rw [fire, heq]
        rfl

/-- A move leaves the demo alone or calls it. -/
theorem Moves.demo_cases {s s' : Stage} {events : List StageEvent} {started : List Announcement}
    (m : Moves s events started s') : s'.demo = s.demo ∨ ∃ c, s'.demo = s.demo.call c := by
  cases m with
  | click origin => exact Or.inl (s.dispatch_demo origin)
  | once action => exact Or.inl (s.perform_demo action)
  | undo => exact Or.inl s.undo_demo
  | resize width => exact Or.inr ⟨.resize width, rfl⟩
  | openDemo => exact Or.inr ⟨.openWindow, rfl⟩
  | closeDemo => exact Or.inr ⟨.closeWindow, rfl⟩
  | startDemo _ hidle =>
      exact Or.inr ⟨.start, by simp [Demo.call, Demo.start?, hidle, scheduleAfter]⟩
  | @fire entry rest _ =>
      rcases (s.arrive entry rest).fire_demo_cases entry.timer with heq | heq
      · exact Or.inl heq
      · exact Or.inr ⟨.step, heq⟩
  | nothing | replace _ | reset | point _ | calibrate _ | wait _ _ => exact Or.inl rfl

end Stage

/-- The demo of a stage is one that was new and has been called. -/
theorem Reachable.exists_demo_run {s : Stage} (h : Reachable s) :
    ∃ config calls, s.demo = (Demo.new config).run calls := by
  refine h.induction (P := fun s => ∃ config calls, s.demo = (Demo.new config).run calls)
    (fun config s hnew => ?_) fun s _ _ s' hs hmove => ?_
  · obtain ⟨-, program, generator, -, rfl⟩ := hnew
    exact ⟨config.demo, [], rfl⟩
  · obtain ⟨config, calls, hs⟩ := hs
    rcases hmove.demo_cases with heq | ⟨c, heq⟩
    · exact ⟨config, calls, heq.trans hs⟩
    · refine ⟨config, calls ++ [c], ?_⟩
      rw [heq, hs, Demo.run_append]
      rfl

/-! ## Main result -/

theorem Demo.opposed_run (config : DemoConfig) (calls : List Call) :
    ((Demo.new config).run calls).cats.Opposed :=
  run_keeps (fun _ _ => Cats.Opposed.of_directions) (Or.inl rfl) calls

/-- The cats of a demo turn round once for each approach, wherever they begin and whatever the demo is
    asked to do. A step leaves the latch set just if the cats are nearer than the threshold, and they
    turn round in it just if they are and the latch was clear before. Only then their directions
    change: both are reversed, and the turn tells its number among the steps and the directions
    around it. So between two turns there is a step that leaves the cats apart, and each turn begins
    with the directions that the one before it has left, and in a later step. Cats that look one way
    or the other go on to do so. From their first places on, as in every stage, they look at each
    other or away from each other. -/
theorem one_turn_per_approach (config : DemoConfig) (cats : Cats) (calls : List Demo.Call) :
    let d : Demo := { Demo.new config with cats }
    let row := d.strides calls
    (∀ (i : Nat) (s : Demo.Stride), row[i]? = some s → s.Turns config.threshold (i + 1)) ∧
    (row.IsChain (fun a b => b.before.cats = a.after.cats) ∧
      (∀ a ∈ row.head?, a.before.cats = cats) ∧
      (d.run calls).cats = row.getLast?.elim cats (·.after.cats)) ∧
    (∀ (i j : Nat) (a b : Demo.Stride), row[i]? = some a → row[j]? = some b → i < j →
      a.flip?.isSome = true → b.flip?.isSome = true →
        ∃ k c, i < k ∧ k < j ∧ row[k]? = some c ∧ ¬ c.after.cats.distance < config.threshold) ∧
    (Demo.flips row).IsChain (fun f g => g.before = f.after ∧ f.tick < g.tick) ∧
    (cats.Directed → (d.run calls).cats.Directed) ∧
    ((Demo.new config).run calls).cats.Opposed ∧
    ∀ s, Reachable s → s.demo.cats.Opposed ∧
      ∃ config calls, s.demo = (Demo.new config).run calls := by
  intro d row
  refine ⟨fun i s hs => ?_, d.chain_strides calls, fun i j a b => d.exists_apart calls,
    (d.chain_flips calls).1, fun hcats => ?_, Demo.opposed_run config calls, fun s hs => ?_⟩
  · have hturns := d.turns_strides calls hs
    rwa [show d.ticks = 0 from rfl, Nat.zero_add] at hturns
  · exact Demo.run_keeps (fun _ _ => Cats.Directed.of_directions) hcats calls
  · obtain ⟨config, calls, hdemo⟩ := hs.exists_demo_run
    rw [hdemo]
    exact ⟨Demo.opposed_run config calls, config, calls, rfl⟩

end SpriteStage

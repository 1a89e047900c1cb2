import SpriteStage.Proofs.Clockwork
import SpriteStage.Proofs.Ending
import SpriteStage.Proofs.Journal
set_option autoImplicit false

/-! # Walks

A walk of the cats begins when the demo is started and ends when its window is closed. While it
lasts the cats make a step whenever a whole number of ticks is over, whatever else is done
(`Stage.Walk`). Between two walks neither the cats nor the count of their steps change
(`Demo.SameCats`), and the next walk has a larger number. -/

namespace SpriteStage

/-! ## Steps of the cats -/

/-- The cats make a step: it is counted. -/
def Incident.isDemoStep (x : Incident) : Bool := x.after.demo.ticks != x.before.demo.ticks

/-- The instants at which the cats make their steps. -/
def demoClocks (row : List Incident) : List Instant :=
  (row.filter (·.isDemoStep)).map (·.after.now)

theorem demoClocks_append (row later : List Incident) :
    demoClocks (row ++ later) = demoClocks row ++ demoClocks later := by
  simp [demoClocks]

/-- The cats are where they were, with as many steps behind them, in the same session. -/
structure Demo.SameCats (d d' : Demo) : Prop where
  cats : d'.cats = d.cats
  ticks : d'.ticks = d.ticks
  session : d'.session = d.session
  tickMs : d'.config.tickMs = d.config.tickMs

namespace Demo.SameCats

variable {d d' d'' : Demo}

theorem refl (d : Demo) : d.SameCats d := ⟨rfl, rfl, rfl, rfl⟩

theorem of_eq (h : d' = d) : d.SameCats d' := h ▸ refl d

theorem trans (h : d.SameCats d') (h' : d'.SameCats d'') : d.SameCats d'' :=
  ⟨h'.cats.trans h.cats, h'.ticks.trans h.ticks, h'.session.trans h.session,
    h'.tickMs.trans h.tickMs⟩

end Demo.SameCats

@[simp] theorem Demo.step_ticks (d : Demo) : d.step.1.ticks = d.ticks + 1 := by rw [step_eq]

/-- While the cats walk no input but the closing of the window has to do with their next tick. -/
theorem Clockwork.next_answer {c : Clockwork} {input : StageInput} (now : Instant)
    (hwalking : c.demo.isAnimating = true) (hclose : input ≠ .demoClose) :
    (c.answer now input).next = c.next := by
  cases input with
  | demoClose => exact absurd rfl hclose
  | demoStart =>
      simp only [answer, Demo.start?, hwalking, ↓reduceIte]
      split <;> rfl
  | pointerMoved _ | keyDown _ | spriteClicked | flagClicked | runAll | undo | reset | clicked _
  | spriteCentre _ | viewportResized _ | demoOpen => rfl

namespace Stage

variable {s s' : Stage} {input : StageInput} {events : List StageEvent}

/-- No answer moves the cats. Only the closing of the window stops them, and only a start makes them
    walk that do not. -/
theorem Answers.sameCats (ha : s.Answers input s' events) :
    (s.demo.SameCats s'.demo ∧ (s'.demo.isAnimating = s.demo.isAnimating ∨
      input = .demoClose ∧ s'.demo.isAnimating = false)) ∨
    (s.demo.isAnimating = false ∧ events = [.demoStarted (s.demo.session + 1)]) := by
  cases ha with
  | @click _ origin _ =>
      have hdemo := s.dispatch_demo origin
      exact Or.inl ⟨.of_eq hdemo, Or.inl (by rw [hdemo])⟩
  | undo => exact Or.inl ⟨.of_eq s.undo_demo, Or.inl (by rw [s.undo_demo])⟩
  | @once _ action _ =>
      have hdemo := s.perform_demo action
      exact Or.inl ⟨.of_eq hdemo, Or.inl (by rw [hdemo])⟩
  | closeDemo => exact Or.inl ⟨⟨rfl, rfl, rfl, rfl⟩, Or.inr ⟨rfl, rfl⟩⟩
  | startDemo _ hidle => exact Or.inr ⟨hidle, rfl⟩
  | reset | otherKey _ | point _ | calibrate _ | walking _ _ => exact Or.inl ⟨.refl _, Or.inl rfl⟩
  | resize _ | openDemo => exact Or.inl ⟨⟨rfl, rfl, rfl, rfl⟩, Or.inl rfl⟩

end Stage

/-! ## Incident by incident -/

namespace Incident.Occurs

variable {x : Incident}

theorem paced (hx : x.Occurs) (h : Paced x.before) : Paced x.after :=
  hx.keeps (fun _ _ _ _ hs hmove => hmove.paced hs) h

/-- The cats make the step that is due, or the demo and its next tick stay as they are, or an input
    is answered. -/
theorem demo_cases (hx : x.Occurs) (ht : Timely x.before) (hp : Paced x.before) :
    (x.before.demo.isAnimating = true ∧ x.before.clockwork.next = some x.after.now ∧
      x.after.clockwork = x.before.clockwork.tick x.after.now) ∨
    x.after.clockwork = x.before.clockwork ∨
    ∃ input, x.cause = .input input ∧ x.before.Answers input x.after x.events := by
  cases hx with
  | load s program => exact Or.inr (Or.inl (s.clockwork_load program))
  | @input _ _ input _ hhandle =>
      exact Or.inr (Or.inr ⟨input, rfl, Stage.answers_of_handle hhandle⟩)
  | refused hhandle => exact Or.inr (Or.inl (congrArg Stage.clockwork (Stage.eq_of_refused hhandle)))
  | wait _ _ => exact Or.inr (Or.inl rfl)
  | @fire s entry rest hentries =>
      cases htick : entry.timer.isDemoTick with
      | false => exact Or.inr (Or.inl (Stage.clockwork_fire hentries htick))
      | true =>
          obtain ⟨hnext, heq⟩ := Stage.clockwork_fire_tick ht hp hentries htick
          have hnow : ((s.arrive entry rest).fire entry.timer).1.now = entry.due := by
            rw [Stage.fire_now, ht.now_arrive hentries]
          refine Or.inl ⟨?_, hnext.trans (congrArg some hnow.symm), by rw [heq, hnow]⟩
          -- without a walk no tick is scheduled
          cases hwalking : s.demo.isAnimating with
          | true => rfl
          | false => simp [Stage.clockwork, Stage.next_of_idle hp hwalking] at hnext

/-- While the cats do not walk nothing moves them but a start. -/
theorem sameCats_of_idle (hx : x.Occurs) (ht : Timely x.before) (hp : Paced x.before)
    (hidle : x.before.demo.isAnimating = false)
    (hstart : ∀ session, .demoStarted session ∉ x.events) :
    x.before.demo.SameCats x.after.demo ∧ x.after.demo.isAnimating = false := by
  rcases hx.demo_cases ht hp with ⟨hwalking, -⟩ | hsame | ⟨input, -, ha⟩
  · rw [hidle] at hwalking
    cases hwalking
  · have hdemo : x.after.demo = x.before.demo := congrArg Clockwork.demo hsame
    exact ⟨.of_eq hdemo, hdemo ▸ hidle⟩
  · rcases ha.sameCats with ⟨hcats, hsame | ⟨-, hstopped⟩⟩ | ⟨-, hevents⟩
    · exact ⟨hcats, hsame.trans hidle⟩
    · exact ⟨hcats, hstopped⟩
    · exact absurd (hevents ▸ List.mem_cons_self) (hstart _)

end Incident.Occurs

namespace Stage

/-! ## Between two walks -/

/-- Until the next start the cats stay where they are. -/
theorem Journal.sameCats {s s' : Stage} {row : List Incident} (h : s.Journal row s')
    (ht : Timely s) (hp : Paced s) (hidle : s.demo.isAnimating = false)
    (hstart : ∀ session, .demoStarted session ∉ row.flatMap (·.events)) :
    s.demo.SameCats s'.demo ∧ s'.demo.isAnimating = false := by
  induction h with
  | nil => exact ⟨.refl _, hidle⟩
  | @cons x row _ hx _ ih =>
      simp only [List.flatMap_cons, List.mem_append, not_or] at hstart
      obtain ⟨hcats, hstill⟩ := hx.sameCats_of_idle ht hp hidle fun session => (hstart session).1
      obtain ⟨hlater, hlast⟩ := ih (hx.timely ht) (hx.paced hp) hstill fun session =>
        (hstart session).2
      exact ⟨hcats.trans hlater, hlast⟩

/-! ## During a walk -/

/-- The cats have walked since an instant: they have made `n` steps, one whenever a tick was over,
    and the next one is due. -/
structure Walk (start : Instant) (tickMs ticks n : Nat) (row : List Incident) (s : Stage) :
    Prop where
  timely : Timely s
  paced : Paced s
  walking : s.demo.isAnimating = true
  tickMs_eq : s.demo.config.tickMs = tickMs
  ticks_eq : s.demo.ticks = ticks + n
  next : s.clockwork.next = some (after start ((n + 1) * tickMs))
  reached : after start (n * tickMs) ≤ s.now
  clocks : demoClocks row = (List.range n).map fun k => after start ((k + 1) * tickMs)

namespace Walk

variable {start : Instant} {tickMs ticks n : Nat} {row : List Incident} {x : Incident}

/-- What does not move the cats has nothing to do with the walk. -/
theorem still (h : Walk start tickMs ticks n row x.before) (hx : x.Occurs)
    (hcats : x.before.demo.SameCats x.after.demo) (hwalking : x.after.demo.isAnimating = true)
    (hnext : x.after.clockwork.next = x.before.clockwork.next) :
    Walk start tickMs ticks n (row ++ [x]) x.after where
  timely := hx.timely h.timely
  paced := hx.paced h.paced
  walking := hwalking
  tickMs_eq := hcats.tickMs.trans h.tickMs_eq
  ticks_eq := hcats.ticks.trans h.ticks_eq
  next := hnext.trans h.next
  reached := Nat.le_trans h.reached hx.now_le
  clocks := by
    have hnone : demoClocks [x] = [] := by simp [demoClocks, Incident.isDemoStep, hcats.ticks]
    rw [demoClocks_append, hnone, List.append_nil, h.clocks]

/-- The step that is due is made, and the next one is due a tick later. -/
theorem step (h : Walk start tickMs ticks n row x.before) (hx : x.Occurs)
    (hnext : x.before.clockwork.next = some x.after.now)
    (htick : x.after.clockwork = x.before.clockwork.tick x.after.now) :
    Walk start tickMs ticks (n + 1) (row ++ [x]) x.after := by
  have hdemo : x.after.demo = x.before.demo.step.1 := congrArg Clockwork.demo htick
  have hnow : x.after.now = after start ((n + 1) * tickMs) :=
    Option.some.inj (hnext.symm.trans h.next)
  refine ⟨hx.timely h.timely, hx.paced h.paced, ?_, ?_, ?_, ?_, Nat.le_of_eq hnow.symm, ?_⟩
  · rw [hdemo, Demo.step_isAnimating, h.walking]
  · rw [hdemo, Demo.step_config, h.tickMs_eq]
  · rw [hdemo, Demo.step_ticks, h.ticks_eq, Nat.add_assoc]
  · have hlater : x.after.clockwork.next = some (after x.after.now x.before.demo.config.tickMs) :=
      congrArg Clockwork.next htick
    rw [hlater, h.tickMs_eq, hnow, after_after, ← Nat.succ_mul]
  · have hone : demoClocks [x] = [x.after.now] := by
      simp [demoClocks, Incident.isDemoStep, hdemo]
    rw [demoClocks_append, hone, h.clocks, hnow, List.range_succ, List.map_append,
      List.map_singleton]

/-- Nothing but the closing of the window ends a walk. -/
theorem snoc (h : Walk start tickMs ticks n row x.before) (hx : x.Occurs)
    (hclose : x.cause ≠ .input .demoClose) :
    ∃ m, Walk start tickMs ticks m (row ++ [x]) x.after := by
  rcases hx.demo_cases h.timely h.paced with ⟨-, hnext, htick⟩ | hsame | ⟨input, hcause, ha⟩
  · exact ⟨n + 1, h.step hx hnext htick⟩
  · have hdemo : x.after.demo = x.before.demo := congrArg Clockwork.demo hsame
    exact ⟨n, h.still hx (.of_eq hdemo) (by rw [hdemo, h.walking]) (by rw [hsame])⟩
  · have hother : input ≠ .demoClose := fun heq => hclose (by rw [hcause, heq])
    have hnext : x.after.clockwork.next = x.before.clockwork.next := by
      rw [ha.clockwork_eq h.timely h.paced]
      exact Clockwork.next_answer _ h.walking hother
    rcases ha.sameCats with ⟨hcats, hsame | ⟨heq, -⟩⟩ | ⟨hidle, -⟩
    · exact ⟨n, h.still hx hcats (hsame.trans h.walking) hnext⟩
    · exact absurd heq hother
    · rw [h.walking] at hidle
      cases hidle

end Walk

/-- A walk goes on along a journal in which the window is not closed. -/
theorem Journal.walk {s s' : Stage} {row : List Incident} (h : s.Journal row s')
    {start : Instant} {tickMs ticks : Nat} (hwalk : Walk start tickMs ticks 0 [] s)
    (hclose : .input .demoClose ∉ operationsOf row) :
    ∃ n, Walk start tickMs ticks n row s' := by
  have hstart : (∀ x ∈ [], Incident.cause x ≠ .input .demoClose) →
      ∃ n, Walk start tickMs ticks n [] s := fun _ => ⟨0, hwalk⟩
  refine h.induction (P := fun row t => (∀ x ∈ row, x.cause ≠ .input .demoClose) →
    ∃ n, Walk start tickMs ticks n row t) (fun hrow hx hcauses => ?_) hstart fun x hx hcause => ?_
  · obtain ⟨n, hn⟩ := hrow fun y hy => hcauses y (List.mem_append_left _ hy)
    exact hn.snoc hx (hcauses _ (List.mem_append_right _ List.mem_cons_self))
  · exact hclose (mem_operationsOf.2 ⟨x, hx, by rw [hcause]; rfl⟩)

/-- As long as the clock has not ended, the cats have made one step for each tick that is over. -/
theorem Walk.clocks_eq {s : Stage} {row : List Incident} {start : Instant} {tickMs ticks n : Nat}
    (h : Walk start tickMs ticks n row s) (hahead : s.clockwork.IsAhead s.now)
    (hlast : s.now < lastInstant) :
    n = (s.now - start) / tickMs ∧
      demoClocks row = (List.range n).map fun k => start + (k + 1) * tickMs := by
  have hreached : start + n * tickMs ≤ s.now := by
    have hle := h.reached
    unfold after at hle
    lia
  have hnext : s.now < start + (n + 1) * tickMs :=
    Nat.lt_of_lt_of_le (hahead _ h.next) (Nat.min_le_left _ _)
  refine ⟨(Nat.div_eq_of_lt_le (by lia) (by lia)).symm, h.clocks.trans ?_⟩
  refine List.map_congr_left fun k hk => Nat.min_eq_left ?_
  have hle : (k + 1) * tickMs ≤ n * tickMs :=
    Nat.mul_le_mul_right _ (Nat.succ_le_of_lt (List.mem_range.1 hk))
  lia

end Stage

/-- Nothing is started while the window is closed. -/
theorem Stage.isOpen_of_start {s s' : Stage} {events : List StageEvent}
    (hstart : s.handle .demoStart = (s', .ok events)) : s.demo.isOpen = true := by
  cases hopen : s.demo.isOpen with
  | true => rfl
  | false =>
      have hrefused : s.handle .demoStart = (s, .error .demoNotOpen) := startDemo_of_closed hopen
      rw [hrefused] at hstart
      cases hstart

/-- A start in the open window begins a walk with the next number. -/
theorem Reachable.exists_walk {s : Stage} (h : Reachable s) (hopen : s.demo.isOpen = true)
    (hidle : s.demo.isAnimating = false) :
    ∃ s₁, s.handle .demoStart = (s₁, .ok [.demoStarted (s.demo.session + 1)]) ∧
      s₁.demo.session = s.demo.session + 1 ∧
      Stage.Walk s.now s.demo.config.tickMs s.demo.ticks 0 [] s₁ := by
  have hstart : s.handle .demoStart = (_, .ok _) := Stage.startDemo_eq hopen hidle
  have h₁ := h.handle _ hstart
  refine ⟨_, hstart, rfl, h₁.timely, h₁.paced, rfl, rfl, rfl, ?_, ?_, rfl⟩
  · rw [Stage.clockwork_handle h.timely h.paced hstart, Nat.zero_add, Nat.one_mul]
    simp [Clockwork.answer, Stage.clockwork, hopen, Demo.start?, hidle]
  · rw [Nat.zero_mul]
    exact Nat.min_le_left _ _

/-! ## Main result -/

/-- There is one timer per walk. While the cats walk the window is open and exactly one tick is
    scheduled, that of the session; otherwise there is none. A walk that was started and not closed
    has made one step for each whole tick that is over, each at its instant, whatever else was done,
    as long as the clock has not ended. Starting again changes nothing. When the window is closed
    neither the cats nor the count of their steps change until the next start, which has a larger
    number. -/
theorem Reachable.one_timer_per_walk {s : Stage} (h : Reachable s) :
    (s.demo.isAnimating = true →
      s.demo.isOpen = true ∧ s.agenda.demoTicks = [s.demo.session]) ∧
    (s.demo.isAnimating = false → s.agenda.demoTicks = []) ∧
    (s.demo.isOpen = true → s.demo.isAnimating = false →
      ∃ s₁, s.handle .demoStart = (s₁, .ok [.demoStarted (s.demo.session + 1)]) ∧
      ∀ ops s' records, s₁.operateAll? ops = some (s', records) →
        .input .demoClose ∉ ops → s'.now < lastInstant →
          s'.demo.ticks = s.demo.ticks + (s'.now - s.now) / s.demo.config.tickMs ∧
          (∃ row, s₁.Journal row s' ∧ operationsOf row = ops.filter (!·.isWait)) ∧
          ∀ row, s₁.Journal row s' → operationsOf row = ops.filter (!·.isWait) →
            demoClocks row = (List.range ((s'.now - s.now) / s.demo.config.tickMs)).map
              fun k => s.now + (k + 1) * s.demo.config.tickMs) ∧
    (s.demo.isAnimating = true → s.handle .demoStart = (s, .ok [])) ∧
    ∀ ops s' records, s.operateAll? (.input .demoClose :: ops) = some (s', records) →
      (∀ r ∈ records, ∀ events, r.answer = .ok events → ∀ session, .demoStarted session ∉ events) →
        s.demo.SameCats s'.demo ∧ s'.demo.isAnimating = false ∧
        ∀ s₂ session, s'.handle .demoStart = (s₂, .ok [.demoStarted session]) →
          s₂.demo.session = session ∧ s.demo.session < session := by
  refine ⟨h.paced.walking, h.paced.idle, ?_, fun hwalking => ?_, ?_⟩
  · intro hopen hidle
    obtain ⟨s₁, hstart, -, hwalk⟩ := h.exists_walk hopen hidle
    refine ⟨s₁, hstart, fun ops s' records hops hclose hlast => ?_⟩
    have hahead := ((h.handle _ hstart).operateAll hops).isAhead hlast
    have hclocks : ∀ row, s₁.Journal row s' → operationsOf row = ops.filter (!·.isWait) →
        s'.demo.ticks = s.demo.ticks + (s'.now - s.now) / s.demo.config.tickMs ∧
        demoClocks row = (List.range ((s'.now - s.now) / s.demo.config.tickMs)).map
          fun k => s.now + (k + 1) * s.demo.config.tickMs := by
      intro row hrow hrowOps
      obtain ⟨n, hn⟩ := hrow.walk hwalk (by simp [hrowOps, hclose])
      obtain ⟨rfl, hclocks⟩ := hn.clocks_eq hahead hlast
      exact ⟨hn.ticks_eq, hclocks⟩
    obtain ⟨row, hrow, -, hrowOps⟩ := Stage.exists_journal hops
    exact ⟨(hclocks row hrow hrowOps).1, ⟨row, hrow, hrowOps⟩,
      fun row hrow hrowOps => (hclocks row hrow hrowOps).2⟩
  · exact Stage.startDemo_of_walking (h.paced.walking hwalking).1 hwalking
  · intro ops s' records hops hstart
    obtain ⟨mid, answer, rest, hanswer, hrest, rfl⟩ := Stage.operateAll?_cons_eq_some.1 hops
    obtain ⟨rfl, -⟩ : s.closeDemo.1 = mid ∧ _ := Prod.mk.inj (Option.some.inj hanswer)
    have hclosed : Reachable s.closeDemo.1 := .operate h hanswer
    obtain ⟨row, hrow, hevents, -⟩ := Stage.exists_journal hrest
    have hnone : ∀ session, .demoStarted session ∉ row.flatMap (·.events) := by
      intro session hmem
      rw [hevents] at hmem
      obtain ⟨r, hr, hmem⟩ := List.mem_flatMap.1 hmem
      obtain ⟨events, hanswered, hmem⟩ := Stage.mem_eventsOf.1 hmem
      exact hstart r (List.mem_cons_of_mem _ hr) events hanswered session hmem
    obtain ⟨hcats, hidle⟩ := hrow.sameCats hclosed.timely hclosed.paced rfl hnone
    have hclose : s.demo.SameCats s.closeDemo.1.demo := ⟨rfl, rfl, rfl, rfl⟩
    have hsame := hclose.trans hcats
    refine ⟨hsame, hidle, fun s₂ session hlater => ?_⟩
    obtain ⟨s₁, hstarted, hsession, -⟩ :=
      (h.operateAll hops).exists_walk (Stage.isOpen_of_start hlater) hidle
    rw [hlater] at hstarted
    cases hstarted
    exact ⟨hsession, by rw [hsame.session]; exact Nat.lt_succ_self _⟩

/-- In 120 ms the cats make two steps of 50 ms, and a reset in between does not change that. -/
theorem one_timer_of_two_steps :
    let s := (Stage.new .empty).openDemo.1
    ∃ s₁ s' records row, s.handle .demoStart = (s₁, .ok [.demoStarted 1]) ∧
      s₁.operateAll? [.input .reset, .advanceTo 120] = some (s', records) ∧
      s'.demo.ticks = 2 ∧ s₁.Journal row s' ∧ demoClocks row = [50, 100] := by
  intro s
  have hs : Reachable s := (Reachable.new (Stage.isNew_new .empty)).handle .demoOpen rfl
  obtain ⟨-, -, hwalk, -⟩ := hs.one_timer_per_walk
  obtain ⟨s₁, hstart, hall⟩ := hwalk rfl rfl
  have hreset : s₁.operateAll? [.input .reset]
      = some (s₁.reset.1, [⟨.input .reset, s₁.now, .ok s₁.reset.2⟩]) := rfl
  have hnow : s₁.reset.1.now = 0 := Stage.handle_now hstart
  obtain ⟨s', events, hadvance, hreads⟩ :=
    ((hs.handle _ hstart).operateAll hreset).exists_advanceTo 120 (by decide)
  rw [hnow] at hreads
  have hops := Stage.operateAll?_concat hreset hadvance
  have hclose : Operation.input .demoClose ∉ [.input .reset, .advanceTo 120] := by simp
  obtain ⟨hticks, ⟨row, hrow, hrowOps⟩, hclocks⟩ :=
    hall _ s' _ hops hclose (by rw [hreads]; decide)
  have htwo : (s'.now - s.now) / s.demo.config.tickMs = 2 := by
    rw [hreads]
    decide +kernel
  rw [htwo] at hticks hclocks
  exact ⟨s₁, s', _, row, hstart, hops, hticks, hrow, hclocks row hrow hrowOps⟩

end SpriteStage

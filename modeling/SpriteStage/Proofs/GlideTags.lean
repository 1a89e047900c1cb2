import SpriteStage.Proofs.Clearings
set_option autoImplicit false

/-! # Glide tags and their clearings

A glide tag is shown as long as the clearing that belongs to it is in the agenda, and no longer
(`Reachable.tag_has_clearing`). Whatever writes the tag makes the earlier clearings stale, and
whatever takes a clearing off the agenda while it is current empties the cell: the clearing itself
when it fires, and a reset. So a clearing is current if and only if nothing has written its cell
since it was asked for, in which case the cell is as it was left then. -/

namespace SpriteStage

/-! ## Clearings that are current -/

namespace Happening

variable {h : Happening} {cell : Cell} {e e' : Appointment}

theorem writes_of_reset (hreset : h.deed = .reset) (cell : Cell) : h.Writes cell := by
  rw [Writes, hreset]
  trivial

/-- What is filled for a time is written. -/
theorem Asks.writes (hasks : h.Asks cell e) : h.Writes cell := by
  obtain ⟨action, place, ms, hdeed, hfills, -⟩ := hasks
  rw [Writes, hdeed]
  exact Action.writes_of_fills? hfills

/-- A deed asks for one entry only. -/
theorem Asks.unique (hasks : h.Asks cell e) (hasks' : h.Asks cell e') : e = e' := by
  obtain ⟨action, place, ms, hdeed, hfills, rfl⟩ := hasks
  obtain ⟨action', place', ms', hdeed', hfills', rfl⟩ := hasks'
  obtain ⟨rfl, rfl⟩ := Deed.act.inj (hdeed.symm.trans hdeed')
  obtain ⟨-, rfl⟩ := Prod.mk.inj (Option.some.inj (hfills.symm.trans hfills'))
  rfl

end Happening

section Current

variable {config : StageConfig} {s : Stage} {log : List TimedEvent} {a : Happening} {cell : Cell}
  {e : Appointment} {row earlier later : List Happening}

/-- As long as nothing writes the cell the clearing stays. -/
theorem Chronicle.mem_of_unwritten (hc : Chronicle config s log (earlier ++ a :: later))
    (hasks : a.Asks cell e) (hnone : ∀ w ∈ later, ¬ w.Writes cell) : e ∈ s.agenda.entries := by
  cases hc.fate hasks with
  | pending mem _ _ _ => exact mem
  | @removed between rest h _ _ reset _ _ _ =>
      exact absurd (h.writes_of_reset reset cell)
        (hnone h (List.mem_append_right between List.mem_cons_self))
  | @fired between rest h _ deed _ _ _ _ outcome _ =>
      -- a current clearing empties the cell when it fires
      obtain ⟨hbetween, hrest⟩ := List.forall_mem_append.1 hnone
      have hcleared : h.event = .cleared cell := (outcome.clears (Or.inr hbetween)).1
      refine absurd ?_ (hrest h List.mem_cons_self)
      rwa [Happening.Writes, deed]

/-- A clearing of the version that the cell has now was asked for by the deed that wrote the cell
    last. -/
theorem Chronicle.exists_of_current (hc : Chronicle config s log row)
    (he : e ∈ s.agenda.entries) (hcurrent : e.timer = .clear cell (s.sprite.version cell)) :
    ∃ earlier a later, row = earlier ++ a :: later ∧ a.Asks cell e ∧
      (∀ w ∈ later, ¬ w.Writes cell) ∧ a.after.sprite.AgreeOn s.sprite cell := by
  obtain ⟨a, ha, cell', hasks⟩ := hc.exists_asks he (by rw [hcurrent]; rfl)
  obtain ⟨rfl, hversion⟩ := Timer.clear.inj (hasks.timer_eq.symm.trans hcurrent)
  obtain ⟨earlier, later, rfl⟩ := List.append_of_mem ha
  have hsince : CellSince a cell' later s := hc.cellSince
  have hnone : ∀ w ∈ later, ¬ w.Writes cell' := fun w hw hwrites =>
    absurd hversion (Nat.ne_of_lt (hsince.version_lt w hw hwrites))
  exact ⟨earlier, a, later, rfl, hasks, hnone, hsince.agreeOn hnone⟩

/-- Two elements of a row are the same one, or one of them stands behind the other. -/
theorem same_or_behind {α : Type} {xs ys xs' ys' : List α} {x x' : α}
    (h : xs ++ x :: ys = xs' ++ x' :: ys') : x = x' ∨ x' ∈ ys ∨ x ∈ ys' := by
  rcases List.append_eq_append_iff.1 h with ⟨zs, -, hys⟩ | ⟨zs, -, hys⟩
  · cases zs with
    | nil => exact Or.inl (List.cons.inj hys).1
    | cons z zs =>
        obtain ⟨-, rfl⟩ := List.cons.inj hys
        exact Or.inr (Or.inl (List.mem_append_right zs List.mem_cons_self))
  · cases zs with
    | nil => exact Or.inl (List.cons.inj hys).1.symm
    | cons z zs =>
        obtain ⟨-, rfl⟩ := List.cons.inj hys
        exact Or.inr (Or.inr (List.mem_append_right zs List.mem_cons_self))

/-- No two clearings of a cell are current. -/
theorem Chronicle.current_unique (hc : Chronicle config s log row) {e' : Appointment}
    (he : e ∈ s.agenda.entries) (hcurrent : e.timer = .clear cell (s.sprite.version cell))
    (he' : e' ∈ s.agenda.entries) (hcurrent' : e'.timer = .clear cell (s.sprite.version cell)) :
    e = e' := by
  obtain ⟨earlier, a, later, hrow, hasks, hnone, -⟩ := hc.exists_of_current he hcurrent
  obtain ⟨earlier', a', later', hrow', hasks', hnone', -⟩ := hc.exists_of_current he' hcurrent'
  -- the deed that wrote the cell last is one
  rcases same_or_behind (hrow.symm.trans hrow') with rfl | hbehind | hbehind
  · exact hasks.unique hasks'
  · exact absurd hasks'.writes (hnone a' hbehind)
  · exact absurd hasks.writes (hnone' a hbehind)

end Current

/-! ## Tags -/

/-- An action that writes the tag sets it for the time of a glide, or removes it. -/
theorem Action.tag_cases (action : Action) (around : Surroundings) (extent : Float) (g : Generator)
    (s : Sprite) (hwrites : action.writes .glide = true) :
    (action.perform around extent g s).sprite.glide.value = none ∨
    ∃ ms, action.fills? = some (.glide, ms) ∧
      (action.perform around extent g s).sprite.glide.value = some ⟨ms⟩ := by
  cases action with
  | glide x y ms => exact Or.inr ⟨ms, rfl, rfl⟩
  | glideBy dx dy ms => exact Or.inr ⟨ms, rfl, rfl⟩
  | glideRandom ms => exact Or.inr ⟨ms, rfl, rfl⟩
  | pointTowardsPointer => exact Or.inl rfl
  | _ => cases hwrites

namespace Happening

variable {h : Happening} {events : List StageEvent}

/-- A deed that writes the tag removes it, or sets it and asks for it to be cleared when the time of
    the glide is over. -/
theorem Done.tag_cases (hd : h.Done events) (hwrites : h.Writes .glide) :
    h.after.sprite.glide.value = none ∨
    ∃ tag e, h.after.sprite.glide.value = some tag ∧ h.Asks .glide e ∧
      e.due = SpriteStage.after h.before.now tag.durationMs := by
  cases hd with
  | act s action place =>
      rcases action.tag_cases ⟨(s.pointer.flush s.now).current, s.centre⟩ s.config.randomExtent
        s.generator s.sprite hwrites with hnone | ⟨ms, hfills, hsome⟩
      · exact Or.inl (by rw [Stage.perform_sprite]; exact hnone)
      · refine Or.inr ⟨⟨ms⟩, _, ?_, ⟨action, place, ms, rfl, hfills, rfl⟩, rfl⟩
        rw [Stage.perform_sprite]
        exact hsome
  | undo _ => cases hwrites
  | reset s => exact Or.inl rfl
  | clear _ _ hevent =>
      rcases Stage.fireClear_event hevent with ⟨rfl, heq, -⟩ | ⟨rfl, -⟩
      · obtain rfl := StageEvent.cleared.inj hwrites
        exact Or.inl (by rw [heq]; rfl)
      · cases hwrites

/-- A deed that asks for a tag to be cleared has set it. -/
theorem Done.tag_of_asks (hd : h.Done events) {e : Appointment} (hasks : h.Asks .glide e) :
    ∃ tag, h.after.sprite.glide.value = some tag := by
  obtain ⟨action, place, ms, hdeed, hfills, -⟩ := hasks
  cases hd with
  | undo _ | reset _ | clear _ _ _ => cases hdeed
  | act s action' place' =>
      obtain ⟨rfl, rfl⟩ := Deed.act.inj hdeed
      rw [Stage.perform_sprite]
      cases action' with
      | speak message bubble timeoutMs => cases timeoutMs <;> cases hfills
      | glide _ _ _ | glideBy _ _ _ | glideRandom _ => exact ⟨_, rfl⟩
      | _ => cases hfills

end Happening

section Tags

variable {config : StageConfig} {s : Stage} {log : List TimedEvent} {row : List Happening}

/-- A tag was set by the deed that wrote it last. -/
theorem Chronicle.exists_of_tag (hc : Chronicle config s log row) {tag : GlideTag}
    (htag : s.sprite.glide.value = some tag) :
    ∃ earlier a later e, row = earlier ++ a :: later ∧ a.Asks .glide e ∧
      a.after.sprite.glide.value = some tag ∧
      e.due = after a.before.now tag.durationMs ∧ ∀ w ∈ later, ¬ w.Writes .glide := by
  obtain ⟨start, hnew, hdeeds⟩ := hc
  refine hdeeds.induction
    (P := fun x row => x.sprite.glide.value = some tag →
      ∃ earlier a later e, row = earlier ++ a :: later ∧ a.Asks .glide e ∧
        a.after.sprite.glide.value = some tag ∧
        e.due = after a.before.now tag.durationMs ∧ ∀ w ∈ later, ¬ w.Writes .glide)
    ?_ ?_ ?_ hnew.timely htag
  · obtain ⟨-, program, generator, -, rfl⟩ := hnew
    intro hnone
    cases hnone
  · intro x x' row events hx _ still hvalue
    rw [still.cells.sprite] at hvalue
    exact hx hvalue
  · intro h row events hx _ hd hvalue
    by_cases hwrites : h.Writes .glide
    · rcases hd.tag_cases hwrites with hnone | ⟨tag', e, hsome, hasks, hdue⟩
      · rw [hnone] at hvalue
        cases hvalue
      · obtain rfl := Option.some.inj (hsome.symm.trans hvalue)
        exact ⟨row, h, [], e, rfl, hasks, hsome, hdue, fun _ hmem => absurd hmem List.not_mem_nil⟩
    · have hsame : h.after.sprite.glide = h.before.sprite.glide := hd.agreeOn hwrites
      rw [hsame] at hvalue
      obtain ⟨earlier, a, later, e, rfl, hasks, hset, hdue, hnone⟩ := hx hvalue
      refine ⟨earlier, a, later ++ [h], e, by rw [List.append_assoc, List.cons_append], hasks, hset,
        hdue, ?_⟩
      exact List.forall_mem_append.2 ⟨hnone, List.forall_mem_singleton.2 hwrites⟩

/-- A tag is shown if and only if a clearing of its version is in the agenda. -/
theorem Chronicle.tag_iff (hc : Chronicle config s log row) :
    s.sprite.glide.value.isSome = true ↔
      ∃ e ∈ s.agenda.entries, e.timer = .clear .glide (s.sprite.version .glide) := by
  constructor
  · intro hsome
    obtain ⟨tag, htag⟩ := Option.isSome_iff_exists.1 hsome
    obtain ⟨earlier, a, later, e, rfl, hasks, -, -, hnone⟩ := hc.exists_of_tag htag
    have hsame := hc.cellSince.agreeOn hnone
    refine ⟨e, hc.mem_of_unwritten hasks hnone, ?_⟩
    rw [hasks.timer_eq, hsame.version_eq]
  · rintro ⟨e, he, hcurrent⟩
    obtain ⟨earlier, a, later, rfl, hasks, -, hsame⟩ := hc.exists_of_current he hcurrent
    obtain ⟨_, _, _, -, hd, -⟩ := hc.split
    obtain ⟨tag, htag⟩ := hd.tag_of_asks hasks
    have hglide : s.sprite.glide = a.after.sprite.glide := hsame
    rw [hglide, htag]
    rfl

end Tags

/-- A row without repetitions all of whose elements are the same has one element at most. -/
theorem length_le_one {α : Type} {xs : List α} (hnodup : xs.Nodup)
    (hsame : ∀ x ∈ xs, ∀ y ∈ xs, x = y) : xs.length ≤ 1 := by
  match xs with
  | [] | [_] => simp
  | x :: y :: rest =>
      have heq : x = y := hsame x (by simp) y (by simp)
      simp [heq] at hnodup

/-- On every stage that can be reached a glide tag is shown if and only if the agenda holds a
    clearing of tags with the version that the tag has now. There is at most one such clearing, and
    all others are of smaller versions. So no tag is shown on a settled stage. In every chronicle of
    the stage the tag was set by the deed that wrote it last, and its clearing is due when, from the
    instant of that deed on, the time of the tag is over. -/
theorem Reachable.tag_has_clearing {s : Stage} (h : Reachable s) :
    (s.sprite.glide.value.isSome = true ↔
      ∃ e ∈ s.agenda.entries, e.timer = .clear .glide (s.sprite.version .glide)) ∧
    (s.agenda.entries.filter fun e =>
      decide (e.timer = .clear .glide (s.sprite.version .glide))).length ≤ 1 ∧
    (∀ e ∈ s.agenda.entries, ∀ version, e.timer = .clear .glide version →
      version ≠ s.sprite.version .glide → version < s.sprite.version .glide) ∧
    (s.isSettled = true → s.sprite.glide.value = none) ∧
    (∃ config log row, Chronicle config s log row) ∧
    ∀ config log row, Chronicle config s log row → ∀ tag, s.sprite.glide.value = some tag →
      ∃ earlier a later e, row = earlier ++ a :: later ∧ a.Asks .glide e ∧
        a.after.sprite.glide.value = some tag ∧ (∀ w ∈ later, ¬ w.Writes .glide) ∧
        e ∈ s.agenda.entries ∧ e.timer = .clear .glide (s.sprite.version .glide) ∧
        e.due = after a.before.now tag.durationMs := by
  obtain ⟨config, log, plans, hexecution⟩ := h.execution
  obtain ⟨row, hc⟩ := hexecution.exists_chronicle
  refine ⟨hc.tag_iff, ?_, ?_, ?_, ⟨config, log, row, hc⟩, ?_⟩
  · refine length_le_one (h.timely.ordered.nodup.filter _) fun e he e' he' => ?_
    obtain ⟨hmem, hcurrent⟩ := List.mem_filter.1 he
    obtain ⟨hmem', hcurrent'⟩ := List.mem_filter.1 he'
    exact hc.current_unique hmem (of_decide_eq_true hcurrent) hmem' (of_decide_eq_true hcurrent')
  · intro e he version htimer hne
    exact Nat.lt_of_le_of_ne (h.dated e he .glide version htimer) hne
  · intro hsettled
    cases hvalue : s.sprite.glide.value with
    | none => rfl
    | some tag =>
        -- the clearing of the tag would be something to come
        obtain ⟨e, he, htimer⟩ := hc.tag_iff.1 (by rw [hvalue]; rfl)
        have htick := Stage.isSettled_iff.1 hsettled e he
        rw [htimer] at htick
        cases htick
  · intro config' log' row' hc' tag htag
    obtain ⟨earlier, a, later, e, rfl, hasks, hset, hdue, hnone⟩ := hc'.exists_of_tag htag
    have hsame := hc'.cellSince.agreeOn hnone
    refine ⟨earlier, a, later, e, rfl, hasks, hset, hnone, hc'.mem_of_unwritten hasks hnone, ?_,
      hdue⟩
    rw [hasks.timer_eq, hsame.version_eq]

/-- A second glide is under way while the clearing of the first one is still in the agenda. -/
theorem tag_has_clearing_of_two_glides :
    let start := Stage.new ⟨[[.trigger .spriteClicked, .glide 5 5 1000, .glide 9 9 2000]], none⟩
    ∃ s records, start.operateAll? [.input .spriteClicked, .advanceTo 500] = some (s, records) ∧
      s.sprite.glide.value = some ⟨2000⟩ ∧ s.sprite.version .glide = 2 ∧
      (s.agenda.entries.map (·.timer)) = [.clear .glide 1, .clear .glide 2] ∧
      ∃ e ∈ s.agenda.entries, e.timer = .clear .glide (s.sprite.version .glide) := by
  intro start
  have hrun : (start.operateAll? [.input .spriteClicked, .advanceTo 500]).map
      (fun last => (last.1.sprite.glide.value, last.1.sprite.version .glide,
        last.1.agenda.entries.map (·.timer)))
        = some (some ⟨2000⟩, 2, [.clear .glide 1, .clear .glide 2]) := by decide +kernel
  obtain ⟨⟨s, records⟩, hops, hlast⟩ := Option.map_eq_some_iff.1 hrun
  simp only [Prod.mk.injEq] at hlast
  obtain ⟨hvalue, hversion, htimers⟩ := hlast
  have hs : Reachable s := (Reachable.new (Stage.isNew_new _)).operateAll hops
  exact ⟨s, records, hops, hvalue, hversion, htimers, hs.tag_has_clearing.1.1 (by rw [hvalue]; rfl)⟩

end SpriteStage

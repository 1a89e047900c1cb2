import SpriteStage.Stage.Runs
set_option autoImplicit false

/-! # The table of runs

The runs stand in the order of their numbers (`RunTable.Ascending`), so a number names one run at
most. Entering a step moves its run there (`RunTable.moveTo`); completing the last one takes the run
off the table (`RunTable.remove`). -/

namespace SpriteStage

/-- The index of the step that a run makes next. -/
def Run.nextIndex (r : Run) : Nat := r.step.elim 0 (· + 1)

theorem Run.step_of_nextIndex_pos {r : Run} (h : 0 < r.nextIndex) :
    r.step = some (r.nextIndex - 1) := by
  cases hs : r.step with
  | none => simp [nextIndex, hs] at h
  | some i => simp [nextIndex, hs]

/-- The number of a run with the index of the step that it makes next. -/
def Run.nextStep (r : Run) : RunId × Nat := (r.id, r.nextIndex)

namespace RunTable

/-! ## Changes of the table -/

/-- The table with a run at one of its steps. -/
def moveTo (t : RunTable) (id : RunId) (index : Nat) : RunTable :=
  { t with runs := t.runs.map fun r => if r.id = id then { r with step := some index } else r }

/-- The table without a run. -/
def remove (t : RunTable) (id : RunId) : RunTable := { t with runs := t.runs.filter (·.id ≠ id) }

theorem mem_moveTo {t : RunTable} {id : RunId} {index : Nat} {r : Run} :
    r ∈ (t.moveTo id index).runs ↔
      ∃ old ∈ t.runs, r = if old.id = id then { old with step := some index } else old := by
  simp [moveTo, eq_comm]

theorem mem_moveTo_self {t : RunTable} {r : Run} (hr : r ∈ t.runs) (index : Nat) :
    { r with step := some index } ∈ (t.moveTo r.id index).runs :=
  mem_moveTo.2 ⟨r, hr, by simp⟩

theorem mem_moveTo_of_ne {t : RunTable} {id : RunId} {index : Nat} {r : Run} (hne : r.id ≠ id) :
    r ∈ (t.moveTo id index).runs ↔ r ∈ t.runs := by
  rw [mem_moveTo]
  constructor
  · rintro ⟨old, hold, rfl⟩
    split at hne
    · exact absurd ‹_› hne
    · rename_i hother
      rwa [if_neg hother]
  · intro hr
    exact ⟨r, hr, (if_neg hne).symm⟩

/-- A run that is moved keeps its number. -/
theorem exists_of_mem_moveTo {t : RunTable} {id : RunId} {index : Nat} {r : Run}
    (h : r ∈ (t.moveTo id index).runs) : ∃ old ∈ t.runs, old.id = r.id := by
  obtain ⟨old, hold, rfl⟩ := mem_moveTo.1 h
  refine ⟨old, hold, ?_⟩
  split <;> rfl

theorem mem_remove {t : RunTable} {id : RunId} {r : Run} :
    r ∈ (t.remove id).runs ↔ r ∈ t.runs ∧ r.id ≠ id := by
  simp [remove]

/-- Where a run is at does not matter once it is taken off. -/
theorem remove_moveTo (t : RunTable) (id : RunId) (index : Nat) :
    (t.moveTo id index).remove id = t.remove id := by
  simp only [remove, moveTo, List.filter_map]
  congr 1
  have hfilter : t.runs.filter ((fun r : Run => decide (r.id ≠ id)) ∘
      fun r => if r.id = id then { r with step := some index } else r)
      = t.runs.filter fun r => decide (r.id ≠ id) := by
    apply List.filter_congr
    intro r _
    by_cases hr : r.id = id <;> simp [hr]
  rw [hfilter]
  conv => rhs; rw [← List.map_id (t.runs.filter fun r => decide (r.id ≠ id))]
  apply List.map_congr_left
  intro r hr
  have hne : r.id ≠ id := by simpa using (List.mem_filter.1 hr).2
  simp [hne]

/-! ## The numbers on the table -/

/-- The numbers of the runs on the table. -/
def ids (t : RunTable) : List RunId := t.runs.map (·.id)

theorem mem_ids {t : RunTable} {id : RunId} : id ∈ t.ids ↔ ∃ r ∈ t.runs, r.id = id := List.mem_map

theorem ids_start (t : RunTable) (origin : RunOrigin) (actions : List Action) :
    (t.start origin actions).2.ids = t.ids ++ [t.lastId + 1] := List.map_append

@[simp] theorem ids_moveTo (t : RunTable) (id : RunId) (index : Nat) :
    (t.moveTo id index).ids = t.ids := by
  rw [ids, moveTo, List.map_map]
  apply List.map_congr_left
  intro r _
  by_cases hr : r.id = id <;> simp [hr]

@[simp] theorem ids_remove (t : RunTable) (id : RunId) :
    (t.remove id).ids = t.ids.filter fun other => decide (other ≠ id) := by
  rw [ids, ids, remove, List.filter_map]
  rfl

/-! ## Looking for a run -/

theorem mem_of_find? {t : RunTable} {id : RunId} {r : Run} (h : t.find? id = some r) :
    r ∈ t.runs ∧ r.id = id :=
  ⟨List.mem_of_find?_eq_some h, by simpa using List.find?_some h⟩

theorem find?_eq_none {t : RunTable} {id : RunId} :
    t.find? id = none ↔ ∀ r ∈ t.runs, r.id ≠ id := by
  simp [find?]

theorem find?_moveTo (t : RunTable) (id : RunId) (index : Nat) (other : RunId) :
    (t.moveTo id index).find? other
      = (t.find? other).map fun r => if r.id = id then { r with step := some index } else r := by
  simp only [find?, moveTo, List.find?_map]
  congr 2
  funext r
  by_cases hr : r.id = id <;> simp [hr]

/-- How many steps a run has; none if it is not on the table. -/
def stepsOf (t : RunTable) (id : RunId) : Nat := (t.find? id).elim 0 (·.actions.length)

theorem stepsOf_moveTo (t : RunTable) (id : RunId) (index : Nat) (other : RunId) :
    (t.moveTo id index).stepsOf other = t.stepsOf other := by
  unfold stepsOf
  rw [find?_moveTo]
  cases t.find? other with
  | none => rfl
  | some r =>
      rw [Option.map_some]
      split <;> rfl

theorem find?_remove_self (t : RunTable) (id : RunId) : (t.remove id).find? id = none :=
  find?_eq_none.2 fun _ hr => (mem_remove.1 hr).2

theorem find?_remove_of_ne (t : RunTable) {id other : RunId} (hne : other ≠ id) :
    (t.remove id).find? other = t.find? other := by
  unfold find? remove
  rw [List.find?_filter]
  congr 1
  funext r
  by_cases hr : r.id = other <;> simp [hr, hne]

theorem stepsOf_remove_le (t : RunTable) (id other : RunId) :
    (t.remove id).stepsOf other ≤ t.stepsOf other := by
  unfold stepsOf
  by_cases hother : other = id
  · rw [hother, find?_remove_self]
    exact Nat.zero_le _
  · exact Nat.le_of_eq (by rw [find?_remove_of_ne t hother])

/-- Entering a step gives the action that stands there. -/
theorem enter?_of_find? {t : RunTable} {id : RunId} {index : Nat} {r : Run}
    (h : t.find? id = some r) (hi : index < r.actions.length) :
    t.enter? id index = some (r.actions[index], t.moveTo id index) := by
  simp [enter?, h, hi, moveTo]

theorem enter?_eq_none {t : RunTable} {id : RunId} {index : Nat}
    (h : ∀ r, t.find? id = some r → r.actions.length ≤ index) : t.enter? id index = none := by
  unfold enter?
  cases hf : t.find? id with
  | none => rfl
  | some r =>
      have hnone : r.actions[index]? = none := List.getElem?_eq_none (h r hf)
      simp only [hnone]

/-- Completing a step that was entered names the next one, or takes the run off the table. -/
theorem complete_moveTo {t : RunTable} {id : RunId} {r : Run} (h : t.find? id = some r)
    (index : Nat) :
    (t.moveTo id index).complete id index
      = if index + 1 < r.actions.length then (some (index + 1), t.moveTo id index)
        else (none, t.remove id) := by
  have hid : r.id = id := (mem_of_find? h).2
  unfold complete
  rw [find?_moveTo, h]
  simp only [Option.map_some, hid, if_pos]
  split
  · rfl
  · rw [← remove_moveTo t id index]
    rfl

/-! ## Order -/

/-- The runs stand in the order of their numbers, none of which was not given yet. -/
structure Ascending (t : RunTable) : Prop where
  sorted : t.runs.Pairwise fun a b => a.id < b.id
  bounded : ∀ r ∈ t.runs, r.id ≤ t.lastId

theorem ascending_empty : empty.Ascending := ⟨List.Pairwise.nil, nofun⟩

theorem Ascending.start {t : RunTable} (h : t.Ascending) (origin : RunOrigin)
    (actions : List Action) : (t.start origin actions).2.Ascending where
  sorted := by
    refine List.pairwise_append.2 ⟨h.sorted, List.pairwise_singleton _ _, fun r hr new hnew => ?_⟩
    rw [List.mem_singleton.1 hnew]
    exact Nat.lt_succ_of_le (h.bounded r hr)
  bounded r hr := by
    rcases List.mem_append.1 hr with hr | hr
    · exact Nat.le_succ_of_le (h.bounded r hr)
    · rw [List.mem_singleton.1 hr]
      exact Nat.le_refl _

theorem Ascending.moveTo {t : RunTable} (h : t.Ascending) (id : RunId) (index : Nat) :
    (t.moveTo id index).Ascending where
  sorted := by
    refine List.pairwise_map.2 (h.sorted.imp fun {a b} hab => ?_)
    split <;> split <;> exact hab
  bounded r hr := by
    obtain ⟨old, hold, rfl⟩ := mem_moveTo.1 hr
    split <;> exact h.bounded old hold

theorem Ascending.remove {t : RunTable} (h : t.Ascending) (id : RunId) :
    (t.remove id).Ascending where
  sorted := h.sorted.filter _
  bounded r hr := h.bounded r (mem_remove.1 hr).1

theorem Ascending.cancelAll {t : RunTable} (_ : t.Ascending) : t.cancelAll.2.Ascending :=
  ⟨List.Pairwise.nil, nofun⟩

/-- A number names one run at most. -/
theorem Ascending.eq_of_id_eq {t : RunTable} (h : t.Ascending) {a b : Run} (ha : a ∈ t.runs)
    (hb : b ∈ t.runs) (hab : a.id = b.id) : a = b := by
  obtain ⟨i, hi, rfl⟩ := List.getElem_of_mem ha
  obtain ⟨j, hj, rfl⟩ := List.getElem_of_mem hb
  have hsorted := List.pairwise_iff_getElem.1 h.sorted
  rcases Nat.lt_trichotomy i j with hij | rfl | hij
  · exact absurd hab (Nat.ne_of_lt (hsorted i j hi hj hij))
  · rfl
  · exact absurd hab.symm (Nat.ne_of_lt (hsorted j i hj hi hij))

theorem Ascending.find?_of_mem {t : RunTable} (h : t.Ascending) {r : Run} (hr : r ∈ t.runs) :
    t.find? r.id = some r := by
  cases hf : t.find? r.id with
  | none => exact absurd rfl (find?_eq_none.1 hf r hr)
  | some other =>
      obtain ⟨hmem, hid⟩ := mem_of_find? hf
      rw [h.eq_of_id_eq hmem hr hid]

/-- Around a run stand runs with other numbers. -/
theorem Ascending.around {t : RunTable} (h : t.Ascending) {r : Run} (hr : r ∈ t.runs) :
    ∃ before behind, t.runs = before ++ r :: behind ∧
      (∀ x ∈ before, x.id ≠ r.id) ∧ (∀ x ∈ behind, x.id ≠ r.id) := by
  obtain ⟨before, behind, hruns⟩ := List.append_of_mem hr
  have hsorted := h.sorted
  rw [hruns, List.pairwise_append, List.pairwise_cons] at hsorted
  obtain ⟨-, ⟨hbehind, -⟩, hbefore⟩ := hsorted
  refine ⟨before, behind, hruns, ?_, ?_⟩
  · intro x hx
    exact Nat.ne_of_lt (hbefore x hx r List.mem_cons_self)
  · intro x hx
    exact Ne.symm (Nat.ne_of_lt (hbehind x hx))

theorem Ascending.filter_id {t : RunTable} (h : t.Ascending) {r : Run} (hr : r ∈ t.runs) :
    t.runs.filter (fun x => decide (x.id = r.id)) = [r] := by
  obtain ⟨before, behind, hruns, hbefore, hbehind⟩ := h.around hr
  rw [hruns, List.filter_append, List.filter_cons_of_pos (by simp),
    List.filter_eq_nil_iff.2 (by simpa using hbefore),
    List.filter_eq_nil_iff.2 (by simpa using hbehind)]
  rfl

/-- What a change of one run makes of the table. -/
theorem Ascending.split {t : RunTable} (h : t.Ascending) {r : Run} (hr : r ∈ t.runs) :
    ∃ before behind, t.runs = before ++ r :: behind ∧
      (∀ index, (t.moveTo r.id index).runs
        = before ++ { r with step := some index } :: behind) ∧
      (t.remove r.id).runs = before ++ behind := by
  obtain ⟨before, behind, hruns, hbefore, hbehind⟩ := h.around hr
  have hkept : ∀ part : List Run, (∀ x ∈ part, x.id ≠ r.id) → ∀ index,
      part.map (fun x => if x.id = r.id then { x with step := some index } else x) = part := by
    intro part hpart index
    conv => rhs; rw [← List.map_id part]
    apply List.map_congr_left
    intro x hx
    simp [hpart x hx]
  refine ⟨before, behind, hruns, fun index => ?_, ?_⟩
  · simp only [RunTable.moveTo, hruns, List.map_append, List.map_cons, ↓reduceIte]
    rw [hkept before hbefore, hkept behind hbehind]
  · simp only [RunTable.remove, hruns, List.filter_append]
    rw [List.filter_cons_of_neg (by simp), List.filter_eq_self.2 (by simpa using hbefore),
      List.filter_eq_self.2 (by simpa using hbehind)]

end RunTable

end SpriteStage

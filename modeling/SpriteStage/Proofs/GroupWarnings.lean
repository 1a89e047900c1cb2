import Mathlib.Data.List.Forall2
import SpriteStage.Proofs.Checking
import SpriteStage.Script.Plan
set_option autoImplicit false

/-! # Warnings of groups that no trigger starts

The remarks on a draft warn of a group if no trigger stands in it (`Draft.warnsOfGroup_iff`). Nothing of
such a group can be started but by running all. The other way round there is one exception: a group of a
trigger and nothing else is not started either, for the trigger at its head is left out, and there is no
warning of it (`Draft.warnings_of_unreachable_groups`, `no_warning_of_lone_trigger`). -/

namespace SpriteStage

/-! ## What a trigger starts of a group -/

theorem Action.isTrigger_iff (a : Action) : a.isTrigger = true ↔ ∃ event, a = .trigger event := by
  cases a <;> simp [Action.isTrigger]

namespace Group

variable {g : Group} {event : Trigger}

/-- No trigger starts anything if the group is all there is. -/
def IsUnreachable (g : Group) : Prop :=
  ∀ event, ∃ reason, (⟨[g], none⟩ : Program).plan (.trigger event) false = .ignore reason

/-- A trigger starts the group without its head, if it stands there and anything is left. -/
theorem plan_single (g : Group) (event : Trigger) :
    (⟨[g], none⟩ : Program).plan (.trigger event) false
      = if g.respondsTo event && !g.withoutLeadingTrigger.isEmpty then
          .start [g.withoutLeadingTrigger]
        else .ignore .noMatchingGroup := by
  simp only [Program.plan, Program.groupsFor, Bool.false_and, Bool.false_eq_true, ↓reduceIte]
  cases hresponds : g.respondsTo event with
  | false => simp [hresponds, Plan.ofRuns]
  | true => cases hempty : g.withoutLeadingTrigger.isEmpty <;> simp [hresponds, hempty, Plan.ofRuns]

theorem respondsTo_iff : g.respondsTo event = true ↔ .trigger event ∈ g := by
  simp only [respondsTo, List.any_eq_true]
  constructor
  · rintro ⟨action, hmem, hresponds⟩
    split at hresponds
    · rwa [← eq_of_beq hresponds]
    · cases hresponds
  · intro hmem
    exact ⟨_, hmem, beq_self_eq_true event⟩

theorem hasTrigger_iff : g.hasTrigger = true ↔ ∃ event, g.respondsTo event = true := by
  simp only [hasTrigger, List.any_eq_true, Action.isTrigger_iff, respondsTo_iff]
  constructor
  · rintro ⟨_, hmem, event, rfl⟩
    exact ⟨event, hmem⟩
  · rintro ⟨event, hmem⟩
    exact ⟨_, hmem, event, rfl⟩

/-- Nothing is left of a group if it is empty or a trigger is all of it. -/
theorem withoutLeadingTrigger_eq_nil_iff :
    g.withoutLeadingTrigger = [] ↔ g = [] ∨ ∃ event, g = [.trigger event] := by
  cases g with
  | nil => simp [withoutLeadingTrigger]
  | cons first rest =>
      by_cases hfirst : first.isTrigger
      · obtain ⟨event, rfl⟩ := (Action.isTrigger_iff first).1 hfirst
        simp [withoutLeadingTrigger, hfirst]
      · have hne : ∀ event, first ≠ .trigger event :=
          fun event heq => hfirst ((Action.isTrigger_iff first).2 ⟨event, heq⟩)
        simp [withoutLeadingTrigger, hfirst, hne]

/-- A group is out of reach if no trigger stands in it, and if a trigger is all of it. -/
theorem isUnreachable_iff :
    g.IsUnreachable ↔ g.hasTrigger = false ∨ ∃ event, g = [.trigger event] := by
  have hplan : g.IsUnreachable ↔ ∀ event, g.respondsTo event = true → g.withoutLeadingTrigger = [] := by
    refine forall_congr' fun event => ?_
    rw [plan_single]
    split <;> simp_all
  rw [hplan, ← Bool.not_eq_true, hasTrigger_iff]
  constructor
  · intro hnone
    by_cases htrigger : ∃ event, g.respondsTo event = true
    · obtain ⟨event, hresponds⟩ := htrigger
      right
      refine (withoutLeadingTrigger_eq_nil_iff.1 (hnone event hresponds)).resolve_left ?_
      rintro rfl
      cases hresponds
    · exact .inl htrigger
  · intro h event hresponds
    have hlone := h.resolve_left fun hnone => hnone ⟨event, hresponds⟩
    exact withoutLeadingTrigger_eq_nil_iff.2 (.inr hlone)

end Group

/-! ## What the remarks say about a group -/

namespace Draft

/-- There is a warning of the group with this number. -/
def WarnsOfGroup (d : Draft) (group : Nat) : Prop :=
  ∃ r ∈ d.remarks, r.severity = .warn ∧ r.location = .group group

theorem location_of_mem_itemRemarks {group item : Nat} {items : List Descriptor} {r : Remark}
    (h : r ∈ itemRemarks group item items) : ∃ item, r.location = .item group item := by
  induction items generalizing item with
  | nil => cases h
  | cons x rest ih =>
      rw [itemRemarks, List.mem_append, List.mem_map] at h
      obtain ⟨finding, -, rfl⟩ | hrest := h
      · exact ⟨item, rfl⟩
      · exact ih hrest

theorem location_of_mem_clickedRemarks {clicked : Option Descriptor} {r : Remark}
    (h : r ∈ clickedRemarks clicked) : r.location = .clicked := by
  cases clicked with
  | none => cases h
  | some x =>
      obtain ⟨finding, -, rfl⟩ := List.mem_map.1 h
      rfl

/-- What is said about the group as a whole is said in its own remarks, and only if no trigger stands
    in it. -/
theorem exists_mem_groupRemarks_iff {group number : Nat} {items : List Descriptor} :
    (∃ r ∈ groupRemarks number items, r.severity = .warn ∧ r.location = .group group) ↔
      number = group ∧ items.any Descriptor.isTrigger = false := by
  constructor
  · rintro ⟨r, hr, -, hplace⟩
    unfold groupRemarks at hr
    split at hr
    · rename_i hempty
      obtain rfl := List.mem_singleton.1 hr
      cases hplace
      rw [List.isEmpty_iff.1 hempty]
      exact ⟨rfl, rfl⟩
    · rcases List.mem_append.1 hr with hitem | hgroup
      · obtain ⟨item, hitem⟩ := location_of_mem_itemRemarks hitem
        rw [hitem] at hplace
        cases hplace
      · split at hgroup
        · cases hgroup
        · rename_i hnone
          obtain rfl := List.mem_singleton.1 hgroup
          cases hplace
          exact ⟨rfl, Bool.not_eq_true _ ▸ hnone⟩
  · rintro ⟨rfl, hnone⟩
    unfold groupRemarks
    split
    · exact ⟨_, List.mem_singleton_self _, rfl, rfl⟩
    · refine ⟨⟨.group number, .noTrigger⟩, ?_, rfl, rfl⟩
      simp [hnone]

theorem groupsRemarks_eq_flatMap (number : Nat) (groups : List (List Descriptor)) :
    groupsRemarks number groups
      = (groups.zipIdx number).flatMap fun (items, number) => groupRemarks number items := by
  induction groups generalizing number with
  | nil => rfl
  | cons items rest ih => rw [groupsRemarks, ih, List.zipIdx_cons, List.flatMap_cons]

/-- There is a warning of each group in which no descriptor makes a trigger, and of no other. -/
theorem warnsOfGroup_iff {d : Draft} {group : Nat} :
    d.WarnsOfGroup group ↔
      ∃ items, d.groups[group]? = some items ∧ items.any Descriptor.isTrigger = false := by
  constructor
  · rintro ⟨r, hr, hwarn, hplace⟩
    rcases List.mem_append.1 hr with hgroups | hclicked
    · rw [groupsRemarks_eq_flatMap, List.mem_flatMap] at hgroups
      obtain ⟨⟨items, number⟩, hitems, hr⟩ := hgroups
      obtain ⟨rfl, hnone⟩ := exists_mem_groupRemarks_iff.1 ⟨r, hr, hwarn, hplace⟩
      exact ⟨items, List.mem_zipIdx_iff_getElem?.1 hitems, hnone⟩
    · rw [location_of_mem_clickedRemarks hclicked] at hplace
      cases hplace
  · rintro ⟨items, hitems, hnone⟩
    obtain ⟨r, hr, hwarn, hplace⟩ := exists_mem_groupRemarks_iff.2 ⟨rfl, hnone⟩
    have hmem : r ∈ groupsRemarks 0 d.groups := by
      rw [groupsRemarks_eq_flatMap, List.mem_flatMap]
      exact ⟨(items, group), List.mem_zipIdx_iff_getElem?.2 hitems, hr⟩
    exact ⟨r, List.mem_append_left _ hmem, hwarn, hplace⟩

end Draft

/-! ## Loading keeps the groups -/

/-- The action that a descriptor stands for. -/
def Descriptor.Makes (d : Descriptor) (action : Action) : Prop := Action.ofDescriptor d = .ok action

theorem exists_of_bind_eq_ok {ε α β : Type} {first : Except ε α} {next : α → Except ε β} {b : β}
    (h : first >>= next = .ok b) : ∃ a, first = .ok a ∧ next a = .ok b := by
  cases first with
  | error cause => cases h
  | ok a => exact ⟨a, rfl, h⟩

namespace Program

variable {number item : Nat}

/-- The actions of a checked group are those of its descriptors, in order. -/
theorem forall₂_of_checkItems {items : List Descriptor} {g : Group}
    (h : checkItems number item items = .ok g) :
    List.Forall₂ Descriptor.Makes items g := by
  induction items generalizing item g with
  | nil =>
      cases h
      exact .nil
  | cons d rest ih =>
      rw [checkItems] at h
      split at h
      · cases h
      · rename_i action hfirst
        cases hrest : checkItems number (item + 1) rest with
        | error cause =>
            rw [hrest] at h
            cases h
        | ok later =>
            rw [hrest] at h
            cases h
            exact .cons hfirst (ih hrest)

theorem forall₂_of_checkGroups {groups : List (List Descriptor)} {checked : List Group}
    (h : checkGroups number groups = .ok checked) :
    List.Forall₂ (List.Forall₂ Descriptor.Makes) groups checked := by
  induction groups generalizing number checked with
  | nil =>
      cases h
      exact .nil
  | cons items rest ih =>
      rw [checkGroups] at h
      obtain ⟨g, hfirst, h⟩ := exists_of_bind_eq_ok h
      obtain ⟨later, hrest, h⟩ := exists_of_bind_eq_ok h
      cases h
      exact .cons (forall₂_of_checkItems hfirst) (ih hrest)

theorem forall₂_of_ofDraft {d : Draft} {p : Program} (h : ofDraft d = .ok p) :
    List.Forall₂ (List.Forall₂ Descriptor.Makes) d.groups p.groups := by
  rw [ofDraft] at h
  obtain ⟨groups, hgroups, h⟩ := exists_of_bind_eq_ok h
  obtain ⟨clicked, -, h⟩ := exists_of_bind_eq_ok h
  cases h
  exact forall₂_of_checkGroups hgroups

/-- The descriptors of a group and the actions made of them agree about whether a trigger is there. -/
theorem hasTrigger_of_forall₂ {items : List Descriptor} {g : Group}
    (h : List.Forall₂ Descriptor.Makes items g) :
    g.hasTrigger = items.any Descriptor.isTrigger := by
  induction h with
  | nil => rfl
  | cons hfirst _ ih =>
      rw [Group.hasTrigger] at ih ⊢
      rw [List.any_cons, List.any_cons, ih, Descriptor.isTrigger, hfirst]

end Program

/-- Once loaded, a group is warned of if no trigger stands in it. -/
theorem Draft.warnsOfGroup_iff_hasTrigger {d : Draft} {p : Program}
    (h : Program.ofDraft d = .ok p) {group : Nat} :
    d.WarnsOfGroup group ↔ ∃ g, p.groups[group]? = some g ∧ g.hasTrigger = false := by
  have hgroups := List.forall₂_iff_get.1 (Program.forall₂_of_ofDraft h)
  rw [warnsOfGroup_iff]
  constructor
  · rintro ⟨items, hitems, hnone⟩
    obtain ⟨hlt, rfl⟩ := List.getElem?_eq_some_iff.1 hitems
    have hlt' : group < p.groups.length := hgroups.1 ▸ hlt
    have hsame := Program.hasTrigger_of_forall₂ (hgroups.2 group hlt hlt')
    exact ⟨p.groups[group], List.getElem?_eq_getElem hlt', hsame.trans hnone⟩
  · rintro ⟨g, hg, hnone⟩
    obtain ⟨hlt', rfl⟩ := List.getElem?_eq_some_iff.1 hg
    have hlt : group < d.groups.length := hgroups.1 ▸ hlt'
    have hsame := Program.hasTrigger_of_forall₂ (hgroups.2 group hlt hlt')
    exact ⟨d.groups[group], List.getElem?_eq_getElem hlt, hsame.symm.trans hnone⟩

/-! ## Warnings and reach -/

/-- A draft without errors loads, group by group, and there is a warning of just those of its groups
    from which no trigger starts anything, save the groups that are a trigger and nothing else. -/
theorem Draft.warnings_of_unreachable_groups (d : Draft) (h : ∀ r ∈ d.remarks, r.severity ≠ .error) :
    ∃ p, Program.ofDraft d = .ok p ∧ p.groups.length = d.groups.length ∧
      ∀ group, d.WarnsOfGroup group ↔
        ∃ g, p.groups[group]? = some g ∧ g.IsUnreachable ∧ ∀ event, g ≠ [.trigger event] := by
  obtain ⟨p, hload⟩ := (Program.ofDraft_loads d).exists_ok_iff.2 (d.errors_eq_nil_iff.2 h)
  refine ⟨p, hload, (Program.forall₂_of_ofDraft hload).length_eq.symm, fun group => ?_⟩
  rw [Draft.warnsOfGroup_iff_hasTrigger hload]
  refine exists_congr fun g => and_congr_right fun _ => ?_
  rw [Group.isUnreachable_iff]
  constructor
  · intro hnone
    refine ⟨.inl hnone, ?_⟩
    rintro event rfl
    cases hnone
  · rintro ⟨hunreachable, hmore⟩
    exact hunreachable.resolve_right fun ⟨event, hlone⟩ => hmore event hlone

/-- A group of each kind: with something behind its trigger, without a trigger, empty, and with a
    trigger between other actions. -/
theorem Draft.warnings_of_four_groups :
    let d : Draft := ⟨[[.bare "flag_clicked", .bare "random"], [.bare "random"], [],
      [.bare "random", .bare "flag_clicked", .bare "random"]], none⟩
    (∀ r ∈ d.remarks, r.severity ≠ .error) ∧
      ∃ p, Program.ofDraft d = .ok p ∧ p.groups.length = 4 ∧
        ∀ group, d.WarnsOfGroup group ↔
          ∃ g, p.groups[group]? = some g ∧ g.IsUnreachable ∧ ∀ event, g ≠ [.trigger event] := by
  have herrors : ∀ r ∈ (⟨[[.bare "flag_clicked", .bare "random"], [.bare "random"], [],
      [.bare "random", .bare "flag_clicked", .bare "random"]], none⟩ : Draft).remarks,
      r.severity ≠ .error := by
    rw [← Draft.errors_eq_nil_iff]
    rfl
  exact ⟨herrors, Draft.warnings_of_unreachable_groups _ herrors⟩

/-- There is no warning of a group that is a trigger and nothing else, though no trigger starts
    anything of it. -/
theorem no_warning_of_lone_trigger :
    let d : Draft := ⟨[[.bare "flag_clicked"]], none⟩
    d.remarks = [] ∧ Program.ofDraft d = .ok ⟨[[.trigger .flagClicked]], none⟩ ∧
      Group.IsUnreachable [.trigger .flagClicked] ∧ ¬ d.WarnsOfGroup 0 := by
  refine ⟨rfl, rfl, Group.isUnreachable_iff.2 (.inr ⟨.flagClicked, rfl⟩), ?_⟩
  rintro ⟨r, hr, -, -⟩
  cases hr

end SpriteStage

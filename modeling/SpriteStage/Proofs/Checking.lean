import Mathlib.Data.List.Nodup
import SpriteStage.CommandLine.Host
set_option autoImplicit false

/-! # Checking and loading agree

The remarks on a draft and the loading of it are two walks over the same descriptors: the one goes on
behind an error, the other stops there. `Draft.places` lists the descriptors in the order in which
both come to them, and `Loads` compares what they find on the way, part by part of the draft.

So the errors among the remarks are those of the descriptors that are refused, the first of them is the
error of the loader, and `check` fails on just the programs that `run` does not take
(`checking_agrees_with_loading`). -/

namespace SpriteStage

/-! ## Places -/

/-- A descriptor and where it stands. -/
structure Placed where
  location : Location
  descriptor : Descriptor

/-- The error in the remarks if the descriptor is refused. -/
def Placed.refusal? (p : Placed) : Option Remark :=
  match Action.ofDescriptor p.descriptor with
  | .error cause => some ⟨p.location, .invalid cause p.descriptor.bag⟩
  | .ok _ => none

/-- Whether a remark reports an error. -/
def Remark.isError (r : Remark) : Bool := r.severity == .error

namespace Draft

/-- The items of a group at their places, counting from one on. -/
def placesFrom (group item : Nat) (items : List Descriptor) : List Placed :=
  (items.zipIdx item).map fun (d, item) => ⟨.item group item, d⟩

/-- The descriptors at their places: the groups in order, the items of each in order, and the single
    click last. -/
def places (d : Draft) : List Placed :=
  (d.groups.zipIdx.flatMap fun (items, group) => placesFrom group 0 items)
    ++ d.clicked.toList.map (⟨.clicked, ·⟩)

/-- The errors among the remarks. -/
def errors (d : Draft) : List Remark := d.remarks.filter Remark.isError

/-- A place of an item is listed with the item that stands there. -/
theorem mem_places_item {d : Draft} {group item : Nat} {x : Descriptor} :
    ⟨.item group item, x⟩ ∈ d.places ↔ ∃ items, d.groups[group]? = some items ∧
      items[item]? = some x := by
  simp only [places, placesFrom, List.mem_append, List.mem_flatMap, List.mem_map, Prod.exists,
    Placed.mk.injEq, Location.item.injEq, List.mem_zipIdx_iff_getElem?, reduceCtorEq, false_and,
    and_false, exists_false, or_false]
  constructor
  · rintro ⟨items, _, hitems, _, _, hx, ⟨rfl, rfl⟩, rfl⟩
    exact ⟨items, hitems, hx⟩
  · rintro ⟨items, hitems, hx⟩
    exact ⟨items, group, hitems, x, item, hx, ⟨rfl, rfl⟩, rfl⟩

theorem mem_places_clicked {d : Draft} {x : Descriptor} :
    ⟨.clicked, x⟩ ∈ d.places ↔ d.clicked = some x := by
  simp [places, placesFrom, eq_comm]

theorem placesFrom_cons (group item : Nat) (x : Descriptor) (rest : List Descriptor) :
    placesFrom group item (x :: rest)
      = ⟨.item group item, x⟩ :: placesFrom group (item + 1) rest := rfl

theorem locations_placesFrom (group item : Nat) (items : List Descriptor) :
    (placesFrom group item items).map (·.location)
      = (List.range' item items.length).map (Location.item group) := by
  rw [← List.zipIdx_map_snd, placesFrom, List.map_map, List.map_map]
  rfl

/-- No place is listed twice. -/
theorem nodup_places (d : Draft) : (d.places.map (·.location)).Nodup := by
  have hitems : ∀ x ∈ d.groups.zipIdx, ((List.range' 0 x.1.length).map (Location.item x.2)).Nodup :=
    fun _ _ => (List.nodup_range' 1).map fun _ _ h => (Location.item.inj h).2
  have hgroups : d.groups.zipIdx.Pairwise fun x y =>
      ((List.range' 0 x.1.length).map (Location.item x.2)).Disjoint
        ((List.range' 0 y.1.length).map (Location.item y.2)) := by
    have hnumbers : (d.groups.zipIdx.map Prod.snd).Nodup := by
      rw [List.zipIdx_map_snd]
      exact List.nodup_range' 1
    refine (List.pairwise_map.1 hnumbers).imp fun hne place hx hy => ?_
    obtain ⟨_, -, rfl⟩ := List.mem_map.1 hx
    obtain ⟨_, -, heq⟩ := List.mem_map.1 hy
    exact hne (Location.item.inj heq).1.symm
  simp only [places, List.map_append, List.map_flatMap, locations_placesFrom]
  refine List.nodup_append'.2 ⟨List.nodup_flatMap.2 ⟨hitems, hgroups⟩, ?_, ?_⟩
  · cases d.clicked <;> simp
  · intro place hitem hclicked
    simp only [List.mem_flatMap, List.mem_map] at hitem hclicked
    obtain ⟨_, -, _, -, rfl⟩ := hitem
    obtain ⟨_, ⟨_, -, rfl⟩, heq⟩ := hclicked
    cases heq

end Draft

/-! ## The errors among the remarks -/

theorem Action.not_isError_findings {action : Action} {finding : Finding}
    (h : finding ∈ action.findings) : finding.severity ≠ .error := by
  unfold findings at h
  split at h
  · simp only [List.mem_singleton] at h
    rw [h]
    exact nofun
  · split at h
    · cases h
    · simp only [List.mem_singleton] at h
      rw [h]
      exact nofun
  · cases h

/-- A descriptor gives rise to one error if it is refused, and to none otherwise. -/
theorem Placed.filter_isError (p : Placed) :
    (p.descriptor.findings.map (⟨p.location, ·⟩)).filter Remark.isError = p.refusal?.toList := by
  unfold Descriptor.findings refusal?
  cases Action.ofDescriptor p.descriptor with
  | error cause => rfl
  | ok action =>
      rw [Option.toList_none, List.filter_eq_nil_iff]
      intro r hr
      obtain ⟨finding, hfinding, rfl⟩ := List.mem_map.1 hr
      simpa [Remark.isError, Remark.severity] using Action.not_isError_findings hfinding

namespace Draft

theorem itemRemarks_errors (group item : Nat) (items : List Descriptor) :
    (itemRemarks group item items).filter Remark.isError
      = (placesFrom group item items).filterMap Placed.refusal? := by
  induction items generalizing item with
  | nil => rfl
  | cons x rest ih =>
      have hfirst := (Placed.mk (.item group item) x).filter_isError
      rw [itemRemarks, List.filter_append, ih, hfirst, placesFrom_cons, List.filterMap_cons]
      cases (Placed.mk (.item group item) x).refusal? <;> rfl

/-- What there is to say about a group as a whole is no error. -/
theorem groupRemarks_errors (group : Nat) (items : List Descriptor) :
    (groupRemarks group items).filter Remark.isError
      = (placesFrom group 0 items).filterMap Placed.refusal? := by
  cases items with
  | nil => rfl
  | cons x rest =>
      rw [groupRemarks, if_neg (by simp), List.filter_append, itemRemarks_errors]
      split
      · exact List.append_nil _
      · exact List.append_nil _

theorem groupsRemarks_errors (group : Nat) (groups : List (List Descriptor)) :
    (groupsRemarks group groups).filter Remark.isError
      = ((groups.zipIdx group).flatMap fun (items, group) =>
          placesFrom group 0 items).filterMap Placed.refusal? := by
  induction groups generalizing group with
  | nil => rfl
  | cons items rest ih =>
      rw [groupsRemarks, List.filter_append, ih, groupRemarks_errors, List.zipIdx_cons,
        List.flatMap_cons, List.filterMap_append]

/-- The errors are those of the descriptors that are refused, in the order of their places. -/
theorem errors_eq (d : Draft) : d.errors = d.places.filterMap Placed.refusal? := by
  rw [errors, remarks, List.filter_append, groupsRemarks_errors, places, List.filterMap_append]
  congr 1
  cases d.clicked with
  | none => rfl
  | some x =>
      rw [clickedRemarks, (Placed.mk .clicked x).filter_isError, Option.toList_some, List.map_singleton,
        List.filterMap_cons]
      cases (Placed.mk .clicked x).refusal? <;> rfl

end Draft

/-! ## Loading stops at the first error -/

/-- How loading a part of a draft ends, by the errors in it: well if there are none, and otherwise
    with the first of them. -/
inductive Loads {α : Type} : List Remark → Except ProgramError α → Prop
  | well (a : α) : Loads [] (.ok a)
  | item (group item : Nat) (cause : ActionError) (bag : ParameterBag) (later : List Remark) :
      Loads (⟨.item group item, .invalid cause bag⟩ :: later)
        (.error (.invalidAction group item cause))
  | clicked (cause : ActionError) (bag : ParameterBag) (later : List Remark) :
      Loads (⟨.clicked, .invalid cause bag⟩ :: later) (.error (.invalidClicked cause))

namespace Loads

variable {α β : Type} {errors later : List Remark} {result : Except ProgramError α}

/-- One part after the other: the second is looked at if the first loads well. -/
theorem bind (h : Loads errors result) {next : α → Except ProgramError β}
    (hnext : ∀ a, result = .ok a → Loads later (next a)) :
    Loads (errors ++ later) (result >>= next) := by
  cases h with
  | well a => exact hnext a rfl
  | item group item cause bag rest => exact .item group item cause bag (rest ++ later)
  | clicked cause bag rest => exact .clicked cause bag (rest ++ later)

theorem map (h : Loads errors result) (f : α → β) : Loads errors (result.map f) := by
  cases h with
  | well a => exact .well (f a)
  | item group item cause bag rest => exact .item group item cause bag rest
  | clicked cause bag rest => exact .clicked cause bag rest

theorem exists_ok_iff (h : Loads errors result) : (∃ a, result = .ok a) ↔ errors = [] := by
  cases h <;> simp

theorem exists_error_iff (h : Loads errors result) : (∃ e, result = .error e) ↔ errors ≠ [] := by
  cases h <;> simp

theorem eq_invalidAction_iff (h : Loads errors result) (group item : Nat) (cause : ActionError) :
    result = .error (.invalidAction group item cause) ↔
      ∃ bag, errors.head? = some ⟨.item group item, .invalid cause bag⟩ := by
  cases h <;> simp [and_assoc]

theorem eq_invalidClicked_iff (h : Loads errors result) (cause : ActionError) :
    result = .error (.invalidClicked cause) ↔
      ∃ bag, errors.head? = some ⟨.clicked, .invalid cause bag⟩ := by
  cases h <;> simp

/-- What is written down about the first error is the wording of its cause. -/
theorem message_of_item_iff (h : Loads errors result) (group item : Nat) (text : String) :
    (∃ cause, result = .error (.invalidAction group item cause) ∧ cause.message = text) ↔
      ∃ r, errors.head? = some r ∧ r.location = .item group item ∧ r.finding.message = text := by
  constructor
  · rintro ⟨cause, hresult, htext⟩
    obtain ⟨bag, hfirst⟩ := (h.eq_invalidAction_iff group item cause).1 hresult
    exact ⟨_, hfirst, rfl, htext⟩
  · rintro ⟨r, hfirst, hplace, htext⟩
    cases h with
    | well _ => cases hfirst
    | item _ _ cause bag _ =>
        cases hfirst
        cases hplace
        exact ⟨cause, rfl, htext⟩
    | clicked _ _ _ =>
        cases hfirst
        cases hplace

theorem message_of_clicked_iff (h : Loads errors result) (text : String) :
    (∃ cause, result = .error (.invalidClicked cause) ∧ cause.message = text) ↔
      ∃ r, errors.head? = some r ∧ r.location = .clicked ∧ r.finding.message = text := by
  constructor
  · rintro ⟨cause, hresult, htext⟩
    obtain ⟨bag, hfirst⟩ := (h.eq_invalidClicked_iff cause).1 hresult
    exact ⟨_, hfirst, rfl, htext⟩
  · rintro ⟨r, hfirst, hplace, htext⟩
    cases h with
    | well _ => cases hfirst
    | item _ _ _ _ _ =>
        cases hfirst
        cases hplace
    | clicked cause bag _ =>
        cases hfirst
        exact ⟨cause, rfl, htext⟩

end Loads

theorem Program.checkItems_loads (group item : Nat) (items : List Descriptor) :
    Loads ((Draft.placesFrom group item items).filterMap Placed.refusal?)
      (checkItems group item items) := by
  induction items generalizing item with
  | nil => exact .well []
  | cons x rest ih =>
      rw [Draft.placesFrom_cons, List.filterMap_cons, Placed.refusal?, checkItems]
      cases Action.ofDescriptor x with
      | error cause => exact .item group item cause x.bag _
      | ok action => exact (ih (item + 1)).map (action :: ·)

theorem Program.checkGroups_loads (group : Nat) (groups : List (List Descriptor)) :
    Loads (((groups.zipIdx group).flatMap fun (items, group) =>
        Draft.placesFrom group 0 items).filterMap Placed.refusal?)
      (checkGroups group groups) := by
  induction groups generalizing group with
  | nil => exact .well []
  | cons items rest ih =>
      rw [List.zipIdx_cons, List.flatMap_cons, List.filterMap_append, checkGroups]
      exact (checkItems_loads group 0 items).bind fun g _ => (ih (group + 1)).map (g :: ·)

theorem Program.checkClicked_loads (clicked : Option Descriptor) :
    Loads ((clicked.toList.map (Placed.mk .clicked)).filterMap Placed.refusal?)
      (checkClicked clicked) := by
  cases clicked with
  | none => exact .well none
  | some x =>
      rw [Option.toList_some, List.map_singleton, List.filterMap_cons, Placed.refusal?, checkClicked]
      cases Action.ofDescriptor x with
      | error cause => exact .clicked cause x.bag []
      | ok action => exact .well (some action)

/-- Loading a draft ends as the errors among the remarks on it say. -/
theorem Program.ofDraft_loads (d : Draft) : Loads d.errors (ofDraft d) := by
  rw [d.errors_eq, Draft.places, List.filterMap_append, ofDraft]
  exact (checkGroups_loads 0 d.groups).bind fun groups _ =>
    (checkClicked_loads d.clicked).map (Program.mk groups)

/-! ## The commands -/

theorem Draft.errors_eq_nil_iff (d : Draft) :
    d.errors = [] ↔ ∀ r ∈ d.remarks, r.severity ≠ .error := by
  simp [errors, Remark.isError]

/-- The check counts the errors. -/
theorem Draft.countRemarks_error (d : Draft) : countRemarks .error d.remarks = d.errors.length :=
  List.countP_eq_length_filter

section Files

variable {tree : FileTree} {path text : String}

theorem programText_of_read? (hread : tree.read? path = some text) :
    programText tree path = .ok text := by
  rw [programText, FileTree.readOr, hread]

theorem loadProgram_of_read? (hread : tree.read? path = some text) :
    loadProgram tree path = match Program.parse text with
      | .ok program => .ok program
      | .error e => .error (aboutFile "程序无效: " path e.chain) := by
  rw [loadProgram, programText_of_read? hread]
  rfl

theorem checkProgram_of_unreadable (hread : tree.read? path = some text)
    (hdraft : Draft.parse? text = none) :
    checkProgram tree path = .error (aboutFile "程序无效: " path ProgramError.unreadable.chain) := by
  simp only [checkProgram, programText_of_read? hread, bind, Except.bind, hdraft]

/-- The exit code of a check, once there is a draft to look at. -/
theorem checkProgram_of_draft (hread : tree.read? path = some text) {d : Draft}
    (hdraft : Draft.parse? text = some d) :
    ∃ stdout stderr, checkProgram tree path
      = .ok ⟨if 0 < d.errors.length then 1 else 0, stdout, stderr⟩ := by
  simp only [checkProgram, programText_of_read? hread, bind, Except.bind, hdraft,
    d.countRemarks_error]
  exact ⟨_, _, rfl⟩

end Files

/-- A command comes to an end and reports a failure. -/
def HostCommand.Fails (tree : FileTree) (config : String) (entropy : Nat) (c : HostCommand) : Prop :=
  ∃ output, c.execute tree config entropy = some output ∧ output.code ≠ 0

/-- `run` stops because of the text of the program. -/
def RunOptions.RejectsProgram (tree : FileTree) (config : String) (entropy : Nat)
    (o : RunOptions) : Prop :=
  ∃ causes, o.replay (.load tree config) tree entropy
    = .error (aboutFile "程序无效: " o.program causes)

/-- A fault of the timeline does not look like one of the program. -/
theorem loadTimeline_ne {tree : FileTree} {timeline : Option String} {chain causes : ErrorChain}
    {path : String} (h : loadTimeline tree timeline = .error chain) :
    chain ≠ aboutFile "程序无效: " path causes := by
  have hunread : ∀ name, "时间线读取失败: " ++ name ≠ "程序无效: " ++ path := fun name heq => by
    simpa using congrArg String.toList heq
  have hunfit : ∀ name, "时间线解析失败: " ++ name ≠ "程序无效: " ++ path := fun name heq => by
    simpa using congrArg String.toList heq
  cases timeline with
  | none => cases h
  | some name =>
      simp only [loadTimeline, FileTree.readOr, bind, Except.bind] at h
      cases hread : tree.read? name with
      | none =>
          simp only [hread, Except.error.injEq] at h
          rw [← h, aboutFile, aboutFile]
          exact fun heq => hunread name (List.cons.inj heq).1
      | some text =>
          simp only [hread] at h
          cases hparse : parseTimeline? text with
          | none =>
              simp only [hparse, Except.error.injEq] at h
              rw [← h, aboutFile, aboutFile]
              exact fun heq => hunfit name (List.cons.inj heq).1
          | some entries => simp [hparse] at h

/-- Nor does a fault of the settings, which is all that can keep a timeline from being played. -/
theorem Player.playProgram_ne {config : StageConfig} {program : Program}
    {entries : List TimelineEntry} {cutoff : Option Instant} {e : StageError} {path : String}
    {causes : ErrorChain} (h : playProgram config program entries cutoff = .error e) :
    e.chain ≠ aboutFile "程序无效: " path causes := by
  unfold playProgram Stage.withConfig at h
  cases hfault : config.fault? with
  | none => simp [hfault, bind, Except.bind, pure, Except.pure] at h
  | some fault =>
      simp only [hfault, bind, Except.bind, Except.error.injEq] at h
      have hne : "无效的配置: " ++ fault.message ≠ "程序无效: " ++ path := fun heq => by
        simpa using congrArg String.toList heq
      rw [← h]
      exact fun heq => hne (List.cons.inj heq).1

section Commands

variable {tree : FileTree} {config : String} {entropy : Nat}

/-- A check fails if there is nothing to look at, or by its exit code. -/
theorem HostCommand.check_fails {path : String} :
    (HostCommand.check path).Fails tree config entropy ↔
      ∀ output, checkProgram tree path = .ok output → output.code ≠ 0 := by
  simp only [Fails, execute]
  cases checkProgram tree path with
  | error chain => simp [Output.failure]
  | ok output => simp

/-- When the text of the file could be read, the check fails if it is no program. -/
theorem HostCommand.check_fails_iff {path text : String} (hread : tree.read? path = some text) :
    (HostCommand.check path).Fails tree config entropy ↔ ∃ e, Program.parse text = .error e := by
  rw [check_fails, Program.parse]
  cases hdraft : Draft.parse? text with
  | none =>
      rw [checkProgram_of_unreadable hread hdraft]
      simp
  | some d =>
      obtain ⟨stdout, stderr, hcheck⟩ := checkProgram_of_draft hread hdraft
      have hcode : (if 0 < d.errors.length then 1 else 0) ≠ 0 ↔ d.errors ≠ [] := by
        simp [List.length_eq_zero_iff]
      simp only [hcheck, Except.ok.injEq, forall_eq', hcode,
        (Program.ofDraft_loads d).exists_error_iff]

/-- A file that cannot be read is not rejected for its text. -/
theorem RunOptions.RejectsProgram.exists_text {o : RunOptions}
    (h : o.RejectsProgram tree config entropy) : ∃ text, tree.read? o.program = some text := by
  obtain ⟨causes, hreplay⟩ := h
  cases hread : tree.read? o.program with
  | some text => exact ⟨text, rfl⟩
  | none =>
      simp only [replay, loadProgram, programText, FileTree.readOr, hread, bind, Except.bind,
        Except.error.injEq] at hreplay
      have hne : "程序读取失败: " ++ o.program ≠ "程序无效: " ++ o.program := fun heq => by
        simpa using congrArg String.toList heq
      exact absurd (List.cons.inj hreplay).1 hne

/-- What `run` thinks of a program depends on its text alone. -/
theorem RunOptions.rejectsProgram_iff {o : RunOptions} {text : String}
    (hread : tree.read? o.program = some text) :
    o.RejectsProgram tree config entropy ↔ ∃ e, Program.parse text = .error e := by
  unfold RejectsProgram replay
  rw [loadProgram_of_read? hread]
  cases Program.parse text with
  | error e => simp [bind, Except.bind]
  | ok program =>
      simp only [bind, Except.bind, reduceCtorEq, exists_false, iff_false, not_exists]
      intro causes
      cases htimeline : loadTimeline tree o.timeline with
      | error chain => exact fun heq => loadTimeline_ne htimeline (Except.error.inj heq)
      | ok entries =>
          dsimp only
          split
          · next hplay => exact fun heq => Player.playProgram_ne hplay (Except.error.inj heq)
          · exact nofun

end Commands

/-- The remarks on a draft report an error just when loading it fails. The first error among them has
    the place and the cause with which loading fails, and the errors are those of the descriptors
    that are refused, one for each, in the order of the places. So for a file that can be read `check`
    fails just when `run` rejects the program, whatever the timeline and the settings are. -/
theorem checking_agrees_with_loading :
    (∀ d : Draft,
      ((∃ p, Program.ofDraft d = .ok p) ↔ ∀ r ∈ d.remarks, r.severity ≠ .error) ∧
      (∀ group item cause, Program.ofDraft d = .error (.invalidAction group item cause) ↔
        ∃ bag, d.errors.head? = some ⟨.item group item, .invalid cause bag⟩) ∧
      (∀ group item text, (∃ cause, Program.ofDraft d = .error (.invalidAction group item cause) ∧
          cause.message = text) ↔
        ∃ r, d.errors.head? = some r ∧ r.location = .item group item ∧ r.finding.message = text) ∧
      (∀ cause, Program.ofDraft d = .error (.invalidClicked cause) ↔
        ∃ bag, d.errors.head? = some ⟨.clicked, .invalid cause bag⟩) ∧
      (∀ text, (∃ cause, Program.ofDraft d = .error (.invalidClicked cause) ∧ cause.message = text) ↔
        ∃ r, d.errors.head? = some r ∧ r.location = .clicked ∧ r.finding.message = text) ∧
      d.errors = d.places.filterMap Placed.refusal? ∧
      (d.places.map (·.location)).Nodup) ∧
    ∀ tree config entropy (o : RunOptions),
      (∃ text, tree.read? o.program = some text) ∧
          (HostCommand.check o.program).Fails tree config entropy ↔
        o.RejectsProgram tree config entropy := by
  refine ⟨fun d => ?_, fun tree config entropy o => ?_⟩
  · have hloads := Program.ofDraft_loads d
    exact ⟨hloads.exists_ok_iff.trans d.errors_eq_nil_iff, hloads.eq_invalidAction_iff,
      hloads.message_of_item_iff, hloads.eq_invalidClicked_iff, hloads.message_of_clicked_iff,
      d.errors_eq, d.nodup_places⟩
  · constructor
    · rintro ⟨⟨text, hread⟩, hfails⟩
      exact (o.rejectsProgram_iff hread).2 ((HostCommand.check_fails_iff hread).1 hfails)
    · intro hrejects
      obtain ⟨text, hread⟩ := hrejects.exists_text
      exact ⟨⟨text, hread⟩,
        (HostCommand.check_fails_iff hread).2 ((o.rejectsProgram_iff hread).1 hrejects)⟩

/-- The remarks go on behind the error at which loading stops. -/
example :
    let d : Draft := ⟨[[], [.bare "random", .bare "move"]], some (.bare "say")⟩
    Program.ofDraft d = .error (.invalidAction 1 1 (.missingParameter "move" "x")) ∧
      d.remarks = [⟨.group 0, .emptyGroup⟩,
        ⟨.item 1 1, .invalid (.missingParameter "move" "x") .empty⟩, ⟨.group 1, .noTrigger⟩,
        ⟨.clicked, .invalid (.missingParameter "say" "message") .empty⟩] :=
  ⟨rfl, rfl⟩

end SpriteStage

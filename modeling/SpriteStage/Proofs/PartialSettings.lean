import SpriteStage.Proofs.RecordForms
set_option autoImplicit false

/-! # Settings that are left out

A settings file names only what differs from the defaults. `Json.without` takes chosen members out
of a value, at any mix of levels, and from what is left of settings those are read that have the
default wherever a member is gone (`HostConfig.reads_without`). The reader has a default for each
field and for each section, and the types have theirs; that these agree is part of what is shown. So
settings that have their default there are read back as they were, and it is one and the same
whether a section is left out or written without any fields (`HostConfig.partial_settings`). -/

namespace SpriteStage

namespace Json

/-! ## Leaving members out -/

mutual

/-- A value without the members whose places are chosen. The place of a member is the row of names
    that leads to it, the outermost first; arrays are left as they are. -/
def without (chosen : List String → Bool) : Json → Json
  | .object members => .object (membersWithout chosen members)
  | value => value

/-- Members without those that are chosen, and without what is chosen inside the others. -/
def membersWithout (chosen : List String → Bool) : List (String × Json) → List (String × Json)
  | [] => []
  | (name, value) :: rest =>
    if chosen [name] then membersWithout chosen rest
    else (name, value.without fun place => chosen (name :: place)) :: membersWithout chosen rest

end

section Without

variable {chosen : List String → Bool}

@[simp]
theorem without_ofNat (n : Nat) : (ofNat n).without chosen = ofNat n := rfl

@[simp]
theorem without_string (s : String) : (string s).without chosen = .string s := rfl

@[simp]
theorem without_ofFloat (x : Float) : (ofFloat x).without chosen = ofFloat x := by
  unfold ofFloat
  split <;> rfl

@[simp]
theorem without_ofOption_ofNat (o : Option Nat) :
    (ofOption ofNat o).without chosen = ofOption ofNat o := by
  cases o <;> rfl

mutual

/-- Where no member is chosen nothing is left out. -/
theorem without_eq_self : ∀ {chosen : List String → Bool} (value : Json),
    (∀ name place, chosen (name :: place) = false) → value.without chosen = value
  | _, .null, _ | _, .bool _, _ | _, .number _, _ | _, .string _, _ | _, .array _, _
  | _, .unreadable, _ => rfl
  | _, .object members, h => by rw [without, membersWithout_eq_self members h]

theorem membersWithout_eq_self : ∀ {chosen : List String → Bool} (members : List (String × Json)),
    (∀ name place, chosen (name :: place) = false) → membersWithout chosen members = members
  | _, [], _ => rfl
  | _, (name, value) :: rest, h => by
      rw [membersWithout, if_neg (by simp [h name []]), membersWithout_eq_self rest h,
        without_eq_self value fun inner place => h name (inner :: place)]

end

theorem membersWithout_names_sublist (members : List (String × Json)) :
    ((membersWithout chosen members).map (·.1)).Sublist (members.map (·.1)) := by
  induction members with
  | nil => exact .slnil
  | cons member rest ih =>
      obtain ⟨name, value⟩ := member
      rw [membersWithout]
      split
      · exact ih.cons name
      · exact ih.cons_cons name

theorem notMem_membersWithout {name : String} (h : chosen [name] = true)
    (members : List (String × Json)) : name ∉ (membersWithout chosen members).map (·.1) := by
  induction members with
  | nil => exact List.not_mem_nil
  | cons member rest ih =>
      obtain ⟨first, value⟩ := member
      rw [membersWithout]
      split
      · exact ih
      · rename_i hkept
        rw [List.map_cons, List.mem_cons, not_or]
        refine ⟨?_, ih⟩
        rintro rfl
        exact hkept h

theorem mem_membersWithout {name : String} {value : Json} {members : List (String × Json)}
    (hmem : (name, value) ∈ members) (h : chosen [name] = false) :
    (name, value.without fun place => chosen (name :: place)) ∈ membersWithout chosen members := by
  induction members with
  | nil => cases hmem
  | cons member rest ih =>
      obtain ⟨first, other⟩ := member
      rw [membersWithout]
      rcases List.mem_cons.1 hmem with heq | hmem
      · cases heq
        rw [if_neg (by simp [h])]
        exact List.mem_cons_self
      · split
        · exact ih hmem
        · exact List.mem_cons_of_mem _ (ih hmem)

end Without

/-! ## Reading what is left -/

/-- What is left of a record: under each name that is not chosen there stands a value that is alike
    what is left of the value there, and the names that are chosen are missing. -/
structure HoldsRest (chosen : List String → Bool) (members others : List (String × Json)) :
    Prop where
  kept : Holds (membersWithout chosen members) others
  missing : ∀ name, chosen [name] = true → others.lookup name = none

section Rest

variable {α β : Type} {chosen : List String → Bool} {decode : Json → Option α}
  {members others : List (String × Json)}

/-- What is left of a record is read from the members that are left and from those that are not. -/
theorem Reads.rest {fields : List Field} {read : List (String × Json) → Option α} {a : α}
    (hnames : (members.map (·.1)).Nodup)
    (h : ∀ others, HoldsRest chosen members others → read others = some a) :
    Reads (fun json => json.members? fields >>= read) ((object members).without chosen) a :=
  .record_lacking (hnames.sublist (membersWithout_names_sublist members)) fun others hold hlacks =>
    h others ⟨hold, fun _ hname => hlacks _ (notMem_membersWithout hname members)⟩

/-- Nothing can be left out of a value that has no members. -/
theorem Reads.without {value : Json} {a : α} (h : Reads decode value a)
    (hplain : ∀ chosen, value.without chosen = value) : Reads decode (value.without chosen) a := by
  rw [hplain]
  exact h

theorem HoldsRest.defaulted_self {name : String} {value : Json} {a default : α}
    (h : HoldsRest chosen members others)
    (hreads : Reads decode (value.without fun place => chosen (name :: place)) a)
    (hmem : (name, value) ∈ members) :
    defaulted? name decode default others = some (if chosen [name] then default else a) := by
  cases hchosen : chosen [name] with
  | true =>
      rw [defaulted?, h.missing name hchosen]
      rfl
  | false => exact h.kept.defaulted_self hreads (mem_membersWithout hmem hchosen)

theorem HoldsRest.defaulted {name : String} {value : Json} {a default : α} {next : α → Option β}
    {b : β} (h : HoldsRest chosen members others)
    (hreads : Reads decode (value.without fun place => chosen (name :: place)) a)
    (hmem : (name, value) ∈ members)
    (hnext : next (if chosen [name] then default else a) = some b) :
    defaulted? name decode default others >>= next = some b := by
  rw [h.defaulted_self hreads hmem]
  exact hnext

theorem HoldsRest.optional {name : String} {value : Json} {o : Option α}
    {next : Option α → Option β} {b : β} (h : HoldsRest chosen members others)
    (hreads : Reads (asOption? decode) (value.without fun place => chosen (name :: place)) o)
    (hmem : (name, value) ∈ members) (hnext : next (if chosen [name] then none else o) = some b) :
    optional? name decode others >>= next = some b := by
  cases hchosen : chosen [name] with
  | true =>
      rw [optional?, h.missing name hchosen]
      rwa [hchosen] at hnext
  | false =>
      rw [hchosen] at hnext
      exact h.kept.optional hreads (mem_membersWithout hmem hchosen) hnext

end Rest

end Json

/-! ## Settings with defaults in chosen places -/

/-- The settings of a demo with the default in all chosen places. -/
def DemoConfig.restored (c : DemoConfig) (chosen : List String → Bool) : DemoConfig :=
  let default : DemoConfig := {}
  { tickMs := if chosen ["tick_ms"] then default.tickMs else c.tickMs
    stride := if chosen ["step"] then default.stride else c.stride
    threshold := if chosen ["threshold"] then default.threshold else c.threshold
    rest := if chosen ["cat2_rest"] then default.rest else c.rest
    viewportWidth := if chosen ["viewport_width"] then default.viewportWidth else c.viewportWidth }

/-- A geometry with the default in all chosen places. A point is one setting. -/
def SpriteGeometry.restored (g : SpriteGeometry) (chosen : List String → Bool) : SpriteGeometry :=
  let default : SpriteGeometry := {}
  { origin := if chosen ["origin"] then default.origin else g.origin
    halfExtent := if chosen ["half_extent"] then default.halfExtent else g.halfExtent }

/-- The settings of a stage with the default in all chosen places; the place of a section stands for
    all settings in it. -/
def StageConfig.restored (c : StageConfig) (chosen : List String → Bool) : StageConfig :=
  let default : StageConfig := {}
  { stepIntervalMs := if chosen ["step_interval_ms"] then default.stepIntervalMs
      else c.stepIntervalMs
    pointerThrottleMs := if chosen ["pointer_throttle_ms"] then default.pointerThrottleMs
      else c.pointerThrottleMs
    randomExtent := if chosen ["random_extent"] then default.randomExtent else c.randomExtent
    seed := if chosen ["rng_seed"] then default.seed else c.seed
    geometry := if chosen ["geometry"] then default.geometry
      else c.geometry.restored fun place => chosen ("geometry" :: place)
    historyDepth := if chosen ["history"] then default.historyDepth
      else if chosen ["history", "max_depth"] then default.historyDepth else c.historyDepth
    stalePolicy := if chosen ["timers"] then default.stalePolicy
      else if chosen ["timers", "stale_policy"] then default.stalePolicy else c.stalePolicy
    demo := if chosen ["choreography"] then default.demo
      else c.demo.restored fun place => chosen ("choreography" :: place) }

/-- The settings of a command line with the default in all chosen places. -/
def HostConfig.restored (c : HostConfig) (chosen : List String → Bool) : HostConfig :=
  let default : HostConfig := {}
  { logLevel := if chosen ["log_level"] then default.logLevel else c.logLevel
    stage := if chosen ["stage"] then default.stage
      else c.stage.restored fun place => chosen ("stage" :: place) }

/-! ## Reading what is left of settings -/

section Reading

variable {chosen : List String → Bool}

/-- A point inside which nothing is chosen is there as a whole. -/
theorem Point.reads_without {p : Point} (hfinite : p.floats.all Float.isFinite = true)
    (hwhole : ∀ name place, chosen (name :: place) = false) :
    Json.Reads ofJson? (p.toJson.without chosen) p := by
  rw [Json.without_eq_self _ hwhole]
  exact Point.reads hfinite

theorem DemoConfig.reads_without {c : DemoConfig} (hfinite : c.floats.all Float.isFinite = true) :
    Json.Reads ofJson? (c.toJson.without chosen) (c.restored chosen) := by
  obtain ⟨hstride, hthreshold, hrest, hwidth⟩ : c.stride.isFinite = true ∧
      c.threshold.isFinite = true ∧ c.rest.isFinite = true ∧ c.viewportWidth.isFinite = true := by
    simpa [floats] using hfinite
  refine .rest (by simp) fun others hold => ?_
  refine hold.defaulted ((Json.reads_nat c.tickMs).without (by simp)) (by simp) ?_
  refine hold.defaulted ((Json.reads_float hstride).without (by simp)) (by simp) ?_
  refine hold.defaulted ((Json.reads_float hthreshold).without (by simp)) (by simp) ?_
  refine hold.defaulted ((Json.reads_float hrest).without (by simp)) (by simp) ?_
  exact hold.defaulted ((Json.reads_float hwidth).without (by simp)) (by simp) rfl

theorem SpriteGeometry.reads_without {g : SpriteGeometry}
    (hfinite : g.floats.all Float.isFinite = true)
    (hwhole : ∀ field name place, chosen (field :: name :: place) = false) :
    Json.Reads ofJson? (g.toJson.without chosen) (g.restored chosen) := by
  rw [floats, List.all_append, Bool.and_eq_true] at hfinite
  refine .rest (by simp) fun others hold => ?_
  refine hold.defaulted (Point.reads_without hfinite.1 (hwhole _)) (by simp) ?_
  exact hold.defaulted (Point.reads_without hfinite.2 (hwhole _)) (by simp) rfl

namespace StageConfig

theorem reads_history_without (depth : Nat) :
    Json.Reads historyOfJson? ((historyToJson depth).without chosen)
      (if chosen ["max_depth"] then ({} : StageConfig).historyDepth else depth) :=
  .rest (by simp) fun _ hold =>
    hold.defaulted_self ((Json.reads_nat depth).without (by simp)) (by simp)

theorem reads_timers_without (policy : StalePolicy) :
    Json.Reads timersOfJson? ((timersToJson policy).without chosen)
      (if chosen ["stale_policy"] then ({} : StageConfig).stalePolicy else policy) :=
  .rest (by simp) fun _ hold => hold.defaulted_self (policy.reads.without fun _ => rfl) (by simp)

theorem reads_without {c : StageConfig} (hfinite : c.floats.all Float.isFinite = true)
    (hwhole : ∀ field name place, chosen ("geometry" :: field :: name :: place) = false) :
    Json.Reads ofJson? (c.toJson.without chosen) (c.restored chosen) := by
  rw [floats, List.all_cons, List.all_append, Bool.and_eq_true, Bool.and_eq_true] at hfinite
  obtain ⟨hextent, hgeometry, hdemo⟩ := hfinite
  have hseed : Json.Reads (Json.asOption? Json.asNat?) (.ofOption .ofNat c.seed) c.seed :=
    Json.reads_option (by simp [Json.ofNat]) fun seed _ => Json.reads_nat seed
  refine .rest (by simp) fun others hold => ?_
  refine hold.defaulted ((Json.reads_nat c.stepIntervalMs).without (by simp)) (by simp) ?_
  refine hold.defaulted ((Json.reads_nat c.pointerThrottleMs).without (by simp)) (by simp) ?_
  refine hold.defaulted ((Json.reads_float hextent).without (by simp)) (by simp) ?_
  refine hold.optional (hseed.without (by simp)) (by simp) ?_
  refine hold.defaulted (SpriteGeometry.reads_without hgeometry hwhole) (by simp) ?_
  refine hold.defaulted (reads_history_without c.historyDepth) (by simp) ?_
  refine hold.defaulted (reads_timers_without c.stalePolicy) (by simp) ?_
  exact hold.defaulted (DemoConfig.reads_without hdemo) (by simp) rfl

end StageConfig

/-- From what is left of settings those are read that have the default wherever a member is gone. -/
theorem HostConfig.reads_without {c : HostConfig} (hfinite : c.floats.all Float.isFinite = true)
    (hwhole : ∀ field name place,
      chosen ("stage" :: "geometry" :: field :: name :: place) = false) :
    Json.Reads ofJson? (c.toJson.without chosen) (c.restored chosen) := by
  refine .rest (by simp) fun others hold => ?_
  refine hold.defaulted (c.logLevel.reads.without fun _ => rfl) (by simp) ?_
  exact hold.defaulted (StageConfig.reads_without hfinite hwhole) (by simp) rfl

end Reading

/-! ## Settings that have their default -/

/-- Whether the settings of two demos are the same at a place. Where there is no setting no two are
    the same. -/
def DemoConfig.SameAt (a b : DemoConfig) : List String → Prop
  | [] => a = b
  | ["tick_ms"] => a.tickMs = b.tickMs
  | ["step"] => a.stride = b.stride
  | ["threshold"] => a.threshold = b.threshold
  | ["cat2_rest"] => a.rest = b.rest
  | ["viewport_width"] => a.viewportWidth = b.viewportWidth
  | _ => False

/-- Whether two geometries are the same at a place. A point is one setting. -/
def SpriteGeometry.SameAt (a b : SpriteGeometry) : List String → Prop
  | [] => a = b
  | ["origin"] => a.origin = b.origin
  | ["half_extent"] => a.halfExtent = b.halfExtent
  | _ => False

/-- Whether the settings of two stages are the same at a place. -/
def StageConfig.SameAt (a b : StageConfig) : List String → Prop
  | [] => a = b
  | ["step_interval_ms"] => a.stepIntervalMs = b.stepIntervalMs
  | ["pointer_throttle_ms"] => a.pointerThrottleMs = b.pointerThrottleMs
  | ["random_extent"] => a.randomExtent = b.randomExtent
  | ["rng_seed"] => a.seed = b.seed
  | "geometry" :: place => a.geometry.SameAt b.geometry place
  | ["history"] | ["history", "max_depth"] => a.historyDepth = b.historyDepth
  | ["timers"] | ["timers", "stale_policy"] => a.stalePolicy = b.stalePolicy
  | "choreography" :: place => a.demo.SameAt b.demo place
  | _ => False

/-- Whether the settings of two command lines are the same at a place. -/
def HostConfig.SameAt (a b : HostConfig) : List String → Prop
  | [] => a = b
  | ["log_level"] => a.logLevel = b.logLevel
  | "stage" :: place => a.stage.SameAt b.stage place
  | _ => False

section Same

variable {chosen : List String → Bool}

/-- Putting in the default changes nothing where it stands already. -/
theorem ite_eq_of_imp {α : Type} {b : Bool} {default a : α} (h : b = true → a = default) :
    (if b then default else a) = a := by
  cases b with
  | true => exact (h rfl).symm
  | false => rfl

theorem DemoConfig.restored_eq_self {c : DemoConfig}
    (hsame : ∀ place, chosen place = true → c.SameAt {} place) : c.restored chosen = c := by
  rw [restored, ite_eq_of_imp (hsame _), ite_eq_of_imp (hsame _), ite_eq_of_imp (hsame _),
    ite_eq_of_imp (hsame _), ite_eq_of_imp (hsame _)]

theorem SpriteGeometry.restored_eq_self {g : SpriteGeometry}
    (hsame : ∀ place, chosen place = true → g.SameAt {} place) : g.restored chosen = g := by
  rw [restored, ite_eq_of_imp (hsame _), ite_eq_of_imp (hsame _)]

theorem StageConfig.restored_eq_self {c : StageConfig}
    (hsame : ∀ place, chosen place = true → c.SameAt {} place) : c.restored chosen = c := by
  have hgeometry : c.geometry.restored (fun place => chosen ("geometry" :: place)) = c.geometry :=
    SpriteGeometry.restored_eq_self fun _ => hsame _
  have hdemo : c.demo.restored (fun place => chosen ("choreography" :: place)) = c.demo :=
    DemoConfig.restored_eq_self fun _ => hsame _
  rw [restored, hgeometry, hdemo]
  rw [ite_eq_of_imp (hsame ["history", "max_depth"]),
    ite_eq_of_imp (hsame ["timers", "stale_policy"])]
  rw [ite_eq_of_imp (hsame _), ite_eq_of_imp (hsame _), ite_eq_of_imp (hsame _),
    ite_eq_of_imp (hsame _), ite_eq_of_imp (hsame ["geometry"]), ite_eq_of_imp (hsame ["history"]),
    ite_eq_of_imp (hsame ["timers"]), ite_eq_of_imp (hsame ["choreography"])]

theorem HostConfig.restored_eq_self {c : HostConfig}
    (hsame : ∀ place, chosen place = true → c.SameAt {} place) : c.restored chosen = c := by
  rw [restored, StageConfig.restored_eq_self fun _ => hsame _, ite_eq_of_imp (hsame _),
    ite_eq_of_imp (hsame ["stage"])]

/-- Inside a point there is no place. -/
theorem HostConfig.not_sameAt_inside_point (a b : HostConfig) (field name : String)
    (place : List String) : ¬ a.SameAt b ("stage" :: "geometry" :: field :: name :: place) := by
  simp [SameAt, StageConfig.SameAt, SpriteGeometry.SameAt]

end Same

/-! ## Sections -/

namespace HostConfig

/-- The places of the sections. -/
def sections : List (List String) :=
  [["stage"], ["stage", "geometry"], ["stage", "history"], ["stage", "timers"],
    ["stage", "choreography"]]

/-- To put in the default for a section is to put it in for every member of the section. -/
theorem restored_section (c : HostConfig) {place : List String} (h : place ∈ sections) :
    c.restored (· == place) = c.restored (·.dropLast == place) := by
  simp only [sections, List.mem_cons, List.not_mem_nil, or_false] at h
  rcases h with rfl | rfl | rfl | rfl | rfl <;>
    simp [restored, StageConfig.restored, SpriteGeometry.restored, DemoConfig.restored]

/-- Settings of which some have been left out are completed with the defaults: from what is left of
    them, in whatever order it stands, those settings are read that have the default in the places
    left out. If they had it there anyway they are read back as they were. A section left out and a
    section without any members say the same. -/
theorem partial_settings {c : HostConfig} (hfinite : c.floats.all Float.isFinite = true) :
    (∀ chosen other,
      (∀ field name place, chosen ("stage" :: "geometry" :: field :: name :: place) = false) →
      (c.toJson.without chosen).Alike other → ofJson? other = some (c.restored chosen)) ∧
    (∀ chosen other, (∀ place, chosen place = true → c.SameAt {} place) →
      (c.toJson.without chosen).Alike other → ofJson? other = some c) ∧
    (∀ place ∈ sections,
      ofJson? (c.toJson.without (· == place)) = some (c.restored (· == place)) ∧
      ofJson? (c.toJson.without (·.dropLast == place)) = some (c.restored (· == place))) := by
  refine ⟨fun chosen other hwhole => reads_without hfinite hwhole other, ?_, ?_⟩
  · intro chosen other hsame halike
    have hwhole : ∀ field name place,
        chosen ("stage" :: "geometry" :: field :: name :: place) = false :=
      fun field name place =>
        Bool.eq_false_iff.2 fun h => not_sameAt_inside_point _ _ _ _ _ (hsame _ h)
    rw [reads_without hfinite hwhole other halike, restored_eq_self hsame]
  · intro place hplace
    -- a place of a section is too short to lie inside a point
    have hshort : place.length ≤ 2 := by
      revert place
      decide
    have hgap : ∀ field name rest,
        (("stage" :: "geometry" :: field :: name :: rest) == place) = false := by
      intro field name rest
      refine beq_eq_false_iff_ne.2 ?_
      rintro rfl
      simp at hshort
    have hempty : ∀ field name rest,
        (("stage" :: "geometry" :: field :: name :: rest).dropLast == place) = false := by
      intro field name rest
      refine beq_eq_false_iff_ne.2 ?_
      rintro rfl
      simp at hshort
    have hleft : Json.Reads ofJson? (c.toJson.without (· == place)) (c.restored (· == place)) :=
      reads_without hfinite hgap
    have hbare : Json.Reads ofJson? (c.toJson.without (·.dropLast == place))
        (c.restored (·.dropLast == place)) :=
      reads_without hfinite hempty
    exact ⟨hleft.self, by rw [hbare.self, restored_section c hplace]⟩

/-- Members that have their default are left out at all levels, a whole section among them. -/
theorem partial_settings_with_four_gaps :
    let c : HostConfig :=
      { stage :=
          { seed := some 9
            geometry := { halfExtent := ⟨1, 2⟩ }
            stalePolicy := .fire
            demo := { tickMs := 20 } } }
    let gaps := [["log_level"], ["stage", "geometry", "origin"], ["stage", "history"],
      ["stage", "choreography", "step"]]
    c.floats.all Float.isFinite = true ∧ (∀ place, gaps.contains place = true → c.SameAt {} place) ∧
      ofJson? (c.toJson.without gaps.contains) = some c := by
  intro c gaps
  have hfinite : c.floats.all Float.isFinite = true := by decide
  have hsame : ∀ place, gaps.contains place = true → c.SameAt {} place := by
    intro place h
    simp only [gaps, List.contains_eq_mem, List.mem_cons, List.not_mem_nil, or_false,
      decide_eq_true_eq] at h
    rcases h with rfl | rfl | rfl | rfl <;> rfl
  exact ⟨hfinite, hsame, (partial_settings hfinite).2.1 _ _ hsame (.refl _)⟩

example : ofJson? (.object [("stage", .object [("history", .object [])])]) = some {} := rfl

end HostConfig

end SpriteStage

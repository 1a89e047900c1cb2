import SpriteStage.CommandLine.HostConfig
import SpriteStage.Proofs.MemberOrder
import SpriteStage.Stage.Snapshot
set_option autoImplicit false

/-! # Reading back what the stage shows and how it is set

What is written of a sprite, the undo history, a snapshot or the settings is read back as it was, as
long as its numbers are finite: those that are not have no JSON form. `floats` lists the numbers
that matter. Each type has one lemma, which goes through the fields in the order in which they are
read. -/

namespace SpriteStage

/-! ## The sprite -/

/-- The numbers of a point. -/
def Point.floats (p : Point) : List Float := [p.x, p.y]

theorem Point.reads {p : Point} (h : p.floats.all Float.isFinite = true) :
    Json.Reads ofJson? p.toJson p := by
  obtain ⟨hx, hy⟩ : p.x.isFinite = true ∧ p.y.isFinite = true := by simpa [floats] using h
  refine .record (by simp) fun others hold => ?_
  refine hold.required (Json.reads_float hx) (by simp) ?_
  exact hold.required (Json.reads_float hy) (by simp) rfl

/-- The numbers of a transform. -/
def Transform.floats (t : Transform) : List Float := [t.x, t.y, t.rotation, t.size]

theorem Transform.reads {t : Transform} (h : t.floats.all Float.isFinite = true) :
    Json.Reads ofJson? t.toJson t := by
  obtain ⟨hx, hy, hrotation, hsize⟩ : t.x.isFinite = true ∧ t.y.isFinite = true ∧
      t.rotation.isFinite = true ∧ t.size.isFinite = true := by simpa [floats] using h
  refine .record (by simp) fun others hold => ?_
  refine hold.required (Json.reads_float hx) (by simp) ?_
  refine hold.required (Json.reads_float hy) (by simp) ?_
  refine hold.required (Json.reads_float hrotation) (by simp) ?_
  exact hold.required (Json.reads_float hsize) (by simp) rfl

theorem Speech.reads (s : Speech) : Json.Reads ofJson? s.toJson s := by
  refine .record (by simp) fun others hold => ?_
  refine hold.required (Json.reads_string s.message) (by simp) ?_
  refine hold.required (Json.reads_nat s.durationMs) (by simp) ?_
  exact hold.required (Json.reads_bool s.isThought) (by simp) rfl

theorem GlideTag.reads (tag : GlideTag) : Json.Reads ofJson? tag.toJson tag := by
  have hkind : Json.Reads (Json.choice? .strict kindName?) (.string "glide") () :=
    Json.reads_choice .strict rfl
  refine .record (by simp) fun others hold => ?_
  refine hold.required hkind (by simp) ?_
  exact hold.required (Json.reads_nat tag.durationMs) (by simp) rfl

/-! ## The undo history -/

/-- The numbers of a memory. -/
def Memory.floats (m : Memory) : List Float := m.transform.floats

theorem Memory.reads {m : Memory} (h : m.floats.all Float.isFinite = true) :
    Json.Reads ofJson? m.toJson m := by
  refine .record (by simp) fun others hold => ?_
  refine hold.required (Transform.reads h) (by simp) ?_
  exact hold.required (Speech.reads m.speech) (by simp) rfl

/-- The numbers of all memories. -/
def UndoHistory.floats (h : UndoHistory) : List Float := h.memories.flatMap Memory.floats

theorem UndoHistory.reads {h : UndoHistory} (hfinite : h.floats.all Float.isFinite = true) :
    Json.Reads ofJson? h.toJson h := by
  have hmemories : ∀ m ∈ h.memories.reverse, Json.Reads Memory.ofJson? m.toJson m := by
    intro m hm
    rw [floats, List.all_flatMap, List.all_eq_true] at hfinite
    exact Memory.reads (hfinite m (List.mem_reverse.1 hm))
  refine .record (by simp) fun others hold => ?_
  refine hold.required (Json.reads_list hmemories) (by simp) ?_
  refine hold.required (Json.reads_nat h.maxDepth) (by simp) ?_
  rw [List.reverse_reverse]

/-! ## The demo -/

theorem reads_direction (d : Int8) : Json.Reads Json.asInt8? (directionToJson d) d := by
  intro other h
  simp only [directionToJson, Json.Alike] at h
  have hbounds : -128 ≤ d.toInt ∧ d.toInt ≤ 127 := ⟨d.le_toInt, d.toInt_le⟩
  rw [h, Json.asInt8?, if_pos hbounds, Int8.ofInt_toInt]

theorem reads_directions (d : Int8 × Int8) :
    Json.Reads (Json.asPair? Json.asInt8?) (directionsToJson d) d :=
  Json.reads_pair (reads_direction d.1) (reads_direction d.2)

@[simp]
theorem isReadable_directionsToJson (d : Int8 × Int8) : (directionsToJson d).isReadable = true :=
  rfl

/-- The numbers of the cats. -/
def Cats.floats (c : Cats) : List Float := [c.cat1, c.cat2]

theorem Cats.reads {c : Cats} (h : c.floats.all Float.isFinite = true) :
    Json.Reads ofJson? c.toJson c := by
  obtain ⟨hcat1, hcat2⟩ : c.cat1.isFinite = true ∧ c.cat2.isFinite = true := by
    simpa [floats] using h
  refine .record (by simp) fun others hold => ?_
  refine hold.required (Json.reads_float hcat1) (by simp) ?_
  refine hold.required (Json.reads_float hcat2) (by simp) ?_
  refine hold.required (reads_direction c.dir1) (by simp) ?_
  refine hold.required (reads_direction c.dir2) (by simp) ?_
  exact hold.required (Json.reads_bool c.colliding) (by simp) rfl

/-- The numbers of a turn. -/
def Flip.floats (f : Flip) : List Float := [f.distance]

theorem Flip.reads {f : Flip} (h : f.floats.all Float.isFinite = true) :
    Json.Reads ofJson? f.toJson f := by
  have hdistance : f.distance.isFinite = true := by simpa [floats] using h
  refine .record (by simp [toMembers]) fun others hold => ?_
  refine hold.required (Json.reads_nat f.tick) (by simp [toMembers]) ?_
  refine hold.required (reads_directions f.before) (by simp [toMembers]) ?_
  refine hold.required (reads_directions f.after) (by simp [toMembers]) ?_
  exact hold.required (Json.reads_float hdistance) (by simp [toMembers]) rfl

/-! ## Snapshots -/

/-- The numbers of a view. -/
def DemoView.floats (v : DemoView) : List Float := v.cats.floats

theorem DemoView.reads {v : DemoView} (h : v.floats.all Float.isFinite = true) :
    Json.Reads ofJson? v.toJson v := by
  refine .record (by simp) fun others hold => ?_
  refine hold.required (Json.reads_bool v.isOpen) (by simp) ?_
  refine hold.required (Json.reads_bool v.isAnimating) (by simp) ?_
  refine hold.required (Cats.reads h) (by simp) ?_
  exact hold.required (reads_directions v.facing) (by simp) rfl

/-- The numbers of a snapshot. -/
def StageSnapshot.floats (s : StageSnapshot) : List Float := s.transform.floats ++ s.demo.floats

theorem StageSnapshot.reads {s : StageSnapshot} (h : s.floats.all Float.isFinite = true) :
    Json.Reads ofJson? s.toJson s := by
  rw [floats, List.all_append, Bool.and_eq_true] at h
  have hglide : Json.Reads (Json.asOption? GlideTag.ofJson?) (.ofOption GlideTag.toJson s.glide)
      s.glide :=
    Json.reads_option (by simp [GlideTag.toJson]) fun tag _ => tag.reads
  refine .record (by simp) fun others hold => ?_
  refine hold.required (Json.reads_nat s.now) (by simp) ?_
  refine hold.required (Transform.reads h.1) (by simp) ?_
  refine hold.required (Speech.reads s.speech) (by simp) ?_
  refine hold.optional hglide (by simp) ?_
  refine hold.required (Json.reads_bool s.playing) (by simp) ?_
  refine hold.required (Json.reads_nat s.historyDepth) (by simp) ?_
  exact hold.required (DemoView.reads h.2) (by simp) rfl

/-! ## Settings -/

theorem StalePolicy.reads (p : StalePolicy) : Json.Reads ofJson? p.toJson p :=
  Json.reads_choice .strict (by cases p <;> rfl)

theorem LogLevel.reads (l : LogLevel) : Json.Reads ofJson? l.toJson l :=
  Json.reads_choice .strict (by cases l <;> rfl)

/-- The numbers of the settings of the demo. -/
def DemoConfig.floats (c : DemoConfig) : List Float :=
  [c.stride, c.threshold, c.rest, c.viewportWidth]

theorem DemoConfig.reads {c : DemoConfig} (h : c.floats.all Float.isFinite = true) :
    Json.Reads ofJson? c.toJson c := by
  obtain ⟨hstride, hthreshold, hrest, hwidth⟩ : c.stride.isFinite = true ∧
      c.threshold.isFinite = true ∧ c.rest.isFinite = true ∧ c.viewportWidth.isFinite = true := by
    simpa [floats] using h
  refine .record (by simp) fun others hold => ?_
  refine hold.defaulted (Json.reads_nat c.tickMs) (by simp) ?_
  refine hold.defaulted (Json.reads_float hstride) (by simp) ?_
  refine hold.defaulted (Json.reads_float hthreshold) (by simp) ?_
  refine hold.defaulted (Json.reads_float hrest) (by simp) ?_
  exact hold.defaulted (Json.reads_float hwidth) (by simp) rfl

/-- The numbers of a geometry. -/
def SpriteGeometry.floats (g : SpriteGeometry) : List Float :=
  g.origin.floats ++ g.halfExtent.floats

theorem SpriteGeometry.reads {g : SpriteGeometry} (h : g.floats.all Float.isFinite = true) :
    Json.Reads ofJson? g.toJson g := by
  rw [floats, List.all_append, Bool.and_eq_true] at h
  refine .record (by simp) fun others hold => ?_
  refine hold.defaulted (Point.reads h.1) (by simp) ?_
  exact hold.defaulted (Point.reads h.2) (by simp) rfl

/-- The numbers of settings. -/
def StageConfig.floats (c : StageConfig) : List Float :=
  c.randomExtent :: (c.geometry.floats ++ c.demo.floats)

namespace StageConfig

theorem reads_history (depth : Nat) :
    Json.Reads historyOfJson? (historyToJson depth) depth :=
  .record (by simp) fun _ hold => hold.defaulted_self (Json.reads_nat depth) (by simp)

theorem reads_timers (policy : StalePolicy) :
    Json.Reads timersOfJson? (timersToJson policy) policy :=
  .record (by simp) fun _ hold => hold.defaulted_self policy.reads (by simp)

theorem reads {c : StageConfig} (h : c.floats.all Float.isFinite = true) :
    Json.Reads ofJson? c.toJson c := by
  rw [floats, List.all_cons, List.all_append, Bool.and_eq_true, Bool.and_eq_true] at h
  obtain ⟨hextent, hgeometry, hdemo⟩ := h
  have hseed : Json.Reads (Json.asOption? Json.asNat?) (.ofOption .ofNat c.seed) c.seed :=
    Json.reads_option (by simp [Json.ofNat]) fun seed _ => Json.reads_nat seed
  refine .record (by simp) fun others hold => ?_
  refine hold.defaulted (Json.reads_nat c.stepIntervalMs) (by simp) ?_
  refine hold.defaulted (Json.reads_nat c.pointerThrottleMs) (by simp) ?_
  refine hold.defaulted (Json.reads_float hextent) (by simp) ?_
  refine hold.optional hseed (by simp) ?_
  refine hold.defaulted (SpriteGeometry.reads hgeometry) (by simp) ?_
  refine hold.defaulted (reads_history c.historyDepth) (by simp) ?_
  refine hold.defaulted (reads_timers c.stalePolicy) (by simp) ?_
  exact hold.defaulted (DemoConfig.reads hdemo) (by simp) rfl

end StageConfig

/-- The numbers of the settings of the command line. -/
def HostConfig.floats (c : HostConfig) : List Float := c.stage.floats

theorem HostConfig.reads {c : HostConfig} (h : c.floats.all Float.isFinite = true) :
    Json.Reads ofJson? c.toJson c := by
  refine .record (by simp) fun others hold => ?_
  refine hold.defaulted (LogLevel.reads c.logLevel) (by simp) ?_
  exact hold.defaulted (StageConfig.reads h) (by simp) rfl

end SpriteStage

import SpriteStage.Proofs.Chronicle
set_option autoImplicit false

/-! # Footprints of actions

What an action touches can be read off the action: the parts of the transform that it is about
(`Action.parts`) and the cells that it writes (`Action.writes`). It leaves all else as it is, writes
a cell once or not at all, and asks for a clearing only of the cell that it has just filled
(`Action.Footprint`). So along a row of actions the version of a cell counts the writes to it, and
no two requests for a cell carry the same version. -/

namespace SpriteStage

/-! ## Parts of the transform -/

/-- A part of the transform. -/
inductive Part where
  | x
  | y
  | rotation
  | size
deriving DecidableEq

/-- What a transform has for a part. -/
def Transform.part (t : Transform) : Part → Float
  | .x => t.x
  | .y => t.y
  | .rotation => t.rotation
  | .size => t.size

namespace Action

/-- The parts of the transform that an action is about. -/
def parts : Action → List Part
  | .move _ | .changeXBy _ | .setX _ => [.x]
  | .changeYBy _ | .setY _ => [.y]
  | .goTo _ _ | .random | .glide _ _ _ | .glideBy _ _ _ | .glideRandom _ => [.x, .y]
  | .turn _ | .pointInDirection _ | .pointTowardsPointer => [.rotation]
  | .changeSize _ => [.size]
  | .speak _ _ _ | .trigger _ | .unknown _ => []

/-! ## One action -/

/-- The action is one of the three glides, of this duration. -/
def Glides (action : Action) (ms : Nat) : Prop :=
  (∃ x y, action = .glide x y ms) ∨ (∃ dx dy, action = .glideBy dx dy ms) ∨
    action = .glideRandom ms

theorem glides_iff {action : Action} {ms : Nat} :
    action.Glides ms ↔ action.fills? = some (.glide, ms) := by
  constructor
  · rintro (⟨x, y, rfl⟩ | ⟨dx, dy, rfl⟩ | rfl) <;> rfl
  · intro h
    cases action with
    | glide x y _ =>
        cases h
        exact Or.inl ⟨x, y, rfl⟩
    | glideBy dx dy _ =>
        cases h
        exact Or.inr (Or.inl ⟨dx, dy, rfl⟩)
    | glideRandom _ =>
        cases h
        exact Or.inr (Or.inr rfl)
    | speak _ _ timeoutMs => cases timeoutMs <;> cases h
    | _ => cases h

theorem speaks_iff {action : Action} {ms : Nat} :
    (∃ message bubble, action = .speak message bubble (some ms))
      ↔ action.fills? = some (.speech, ms) := by
  constructor
  · rintro ⟨message, bubble, rfl⟩
    rfl
  · intro h
    cases action with
    | speak message bubble timeoutMs =>
        cases timeoutMs with
        | none => cases h
        | some _ =>
            cases h
            exact ⟨message, bubble, rfl⟩
    | _ => cases h

theorem writes_speech_iff {action : Action} :
    action.writes .speech = true
      ↔ ∃ message bubble timeoutMs, action = .speak message bubble timeoutMs := by
  cases action <;> simp [writes]

theorem writes_glide_iff {action : Action} :
    action.writes .glide = true ↔ (∃ ms, action.Glides ms) ∨ action = .pointTowardsPointer := by
  cases action <;> simp [writes, Glides]

/-- What an action does to the sprite, and what it leaves as it is. -/
structure Footprint (action : Action) (g : Generator) (s : Sprite) (p : Performed) : Prop where
  /-- The three glides ask for the tag to be cleared, and no other action does. -/
  glide_request : ∀ ms version, p.clear = some ⟨.glide, ms, version⟩
    ↔ action.Glides ms ∧ version = p.sprite.version .glide
  /-- A bubble with a timeout asks to be cleared, and no other action does. -/
  speech_request : ∀ ms version, p.clear = some ⟨.speech, ms, version⟩
    ↔ (∃ message bubble, action = .speak message bubble (some ms)) ∧
      version = p.sprite.version .speech
  speech_written : ∀ message bubble timeoutMs, action = .speak message bubble timeoutMs →
    p.sprite.speech = ⟨⟨message, timeoutMs.getD Speech.untimedMs, bubble == .think⟩,
      s.speech.version + 1⟩
  speech_kept : (¬ ∃ message bubble timeoutMs, action = .speak message bubble timeoutMs) →
    p.sprite.speech = s.speech
  tag_set : ∀ ms, action.Glides ms → p.sprite.glide = ⟨some ⟨ms⟩, s.glide.version + 1⟩
  tag_removed : action = .pointTowardsPointer → p.sprite.glide = ⟨none, s.glide.version + 1⟩
  tag_kept : (¬ ∃ ms, action.Glides ms) → action ≠ .pointTowardsPointer → p.sprite.glide = s.glide
  part_kept : ∀ part, part ∉ action.parts → p.sprite.transform.part part = s.transform.part part
  nothing : action.isTrigger = true ∨ action.isUnknown = true → p = ⟨s, g, none⟩

section

variable (action : Action) (around : Surroundings) (extent : Float) (g : Generator) (s : Sprite)

theorem clear_eq_some_iff {cell : Cell} {ms version : Nat} :
    (action.perform around extent g s).clear = some ⟨cell, ms, version⟩
      ↔ action.fills? = some (cell, ms)
        ∧ version = (action.perform around extent g s).sprite.version cell := by
  rw [clear_eq, Option.map_eq_some_iff]
  constructor
  · rintro ⟨filled, hfills, heq⟩
    cases heq
    exact ⟨hfills, rfl⟩
  · rintro ⟨hfills, rfl⟩
    exact ⟨(cell, ms), hfills, rfl⟩

/-- An action that writes a cell raises its version by one, and no other action does. -/
theorem version_perform (cell : Cell) :
    (action.perform around extent g s).sprite.version cell
      = s.version cell + if action.writes cell then 1 else 0 := by
  cases action <;> cases cell <;> rfl

theorem perform_part {part : Part} (h : part ∉ action.parts) :
    (action.perform around extent g s).sprite.transform.part part = s.transform.part part := by
  cases action <;> cases part <;> first | rfl | simp [parts] at h

theorem footprint : action.Footprint g s (action.perform around extent g s) where
  glide_request ms version := by rw [clear_eq_some_iff, glides_iff]
  speech_request ms version := by rw [clear_eq_some_iff, speaks_iff]
  speech_written message bubble timeoutMs h := by rw [h]; rfl
  speech_kept h := by
    have hwrites : action.writes .speech = false := by rwa [← Bool.not_eq_true, writes_speech_iff]
    exact action.agreeOn_perform around extent g s hwrites
  tag_set ms h := by rcases h with ⟨x, y, rfl⟩ | ⟨dx, dy, rfl⟩ | rfl <;> rfl
  tag_removed h := by rw [h]; rfl
  tag_kept hglides hpoints := by
    have hwrites : action.writes .glide = false := by
      rw [← Bool.not_eq_true, writes_glide_iff]
      exact not_or.2 ⟨hglides, hpoints⟩
    exact action.agreeOn_perform around extent g s hwrites
  part_kept part h := action.perform_part around extent g s h
  nothing h := by
    cases action with
    | trigger _ | unknown _ => rfl
    | _ => rcases h with h | h <;> cases h

end

/-! ## Actions in a row -/

/-- The result of some actions: the requests stand in the order in which they were made. -/
structure PerformedAll where
  sprite : Sprite
  generator : Generator
  requests : List ClearRequest

/-- Apply actions one after the other, each in its surroundings. -/
def performAll (extent : Float) : List (Action × Surroundings) → Generator → Sprite → PerformedAll
  | [], g, s => ⟨s, g, []⟩
  | (action, around) :: rest, g, s =>
    let first := action.perform around extent g s
    let later := performAll extent rest first.generator first.sprite
    { later with requests := first.clear.toList ++ later.requests }

variable (extent : Float) (row : List (Action × Surroundings)) (g : Generator) (s : Sprite)
  (cell : Cell)

theorem version_performAll :
    (performAll extent row g s).sprite.version cell
      = s.version cell + row.countP (·.1.writes cell) := by
  induction row generalizing g s with
  | nil => rfl
  | cons call rest ih =>
      obtain ⟨action, around⟩ := call
      simp only [performAll, ih, version_perform, List.countP_cons]
      omega

/-- A request carries a version that its cell did not have before. -/
theorem version_lt_of_mem_requests {request : ClearRequest}
    (h : request ∈ (performAll extent row g s).requests) :
    s.version request.cell < request.version := by
  induction row generalizing g s with
  | nil => cases h
  | cons call rest ih =>
      obtain ⟨action, around⟩ := call
      rw [performAll, List.mem_append, Option.mem_toList] at h
      rcases h with hfirst | hlater
      · obtain ⟨hfills, hversion⟩ := (action.clear_eq_some_iff around extent g s).1 hfirst
        rw [hversion]
        exact action.version_lt_perform around extent g s (writes_of_fills? hfills)
      · have hrest := ih _ _ hlater
        exact Nat.lt_of_le_of_lt (action.version_le_perform around extent g s _) hrest

/-- Among the requests for a cell a later one carries a larger version. -/
theorem requests_increasing :
    (performAll extent row g s).requests.Pairwise
      fun earlier later => earlier.cell = later.cell → earlier.version < later.version := by
  induction row generalizing g s with
  | nil => exact .nil
  | cons call rest ih =>
      obtain ⟨action, around⟩ := call
      rw [performAll, List.pairwise_append]
      refine ⟨?_, ih _ _, ?_⟩
      · cases (action.perform around extent g s).clear with
        | none => exact .nil
        | some request => exact List.pairwise_singleton _ _
      · intro earlier hearlier later hlater hcell
        -- the earlier request carries the version that its action leaves
        obtain ⟨-, hversion⟩ :=
          (action.clear_eq_some_iff around extent g s).1 (Option.mem_toList.1 hearlier)
        rw [hversion, hcell]
        exact version_lt_of_mem_requests extent rest _ _ hlater

/-- Every action keeps to its footprint. So along any row of actions each request for a cell carries
    a larger version than all earlier ones for that cell, and in the end the version of a cell has
    grown by the number of writes to it. -/
theorem keeps_to_footprint :
    (∀ (action : Action) (around : Surroundings) (extent : Float) (g : Generator) (s : Sprite),
      action.Footprint g s (action.perform around extent g s)) ∧
    ∀ (extent : Float) (row : List (Action × Surroundings)) (g : Generator) (s : Sprite),
      ((performAll extent row g s).requests.Pairwise
        fun earlier later => earlier.cell = later.cell → earlier.version < later.version) ∧
      ∀ cell, (performAll extent row g s).sprite.version cell
        = s.version cell + row.countP (·.1.writes cell) :=
  ⟨footprint, fun extent row g s =>
    ⟨requests_increasing extent row g s, version_performAll extent row g s⟩⟩

example (around : Surroundings) (extent : Float) (g : Generator) :
    (performAll extent [(.glideRandom 40, around), (.pointTowardsPointer, around),
      (.speak "hello" .say (some 50), around), (.glideBy 3 4 60, around)] g .initial).requests
    = [⟨.glide, 40, 1⟩, ⟨.speech, 50, 1⟩, ⟨.glide, 60, 3⟩] := rfl

end Action

end SpriteStage

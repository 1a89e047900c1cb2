import SpriteStage.Sprite.State
set_option autoImplicit false

/-! # Undo history

Before runs are started, the transform and the bubble of the sprite are put on a stack of bounded
depth; the oldest entries fall out. Undoing takes the newest entry and puts it back. Glide tags are
not remembered. -/

namespace SpriteStage

/-- What is remembered of the sprite. -/
structure Memory where
  transform : Transform
  speech : Speech
deriving DecidableEq

namespace Memory

/-- Remember the sprite as it is. -/
def capture (s : Sprite) : Memory := ⟨s.transform, s.speech.value⟩

/-- Put a memory back into the sprite; this writes the bubble. -/
def restore (m : Memory) (s : Sprite) : Sprite := { s with transform := m.transform }.say m.speech

/-- The JSON form of a memory. -/
def toJson (m : Memory) : Json :=
  .object [("transform", m.transform.toJson), ("speech", m.speech.toJson)]

/-- Read a memory. -/
def ofJson? (json : Json) : Option Memory := do
  let members ← json.members? (Json.plainFields ["transform", "speech"])
  let transform ← Json.required? "transform" Transform.ofJson? members
  let speech ← Json.required? "speech" Speech.ofJson? members
  some ⟨transform, speech⟩

end Memory

/-- The stack of memories, the newest first, and its greatest depth. -/
structure UndoHistory where
  memories : List Memory
  maxDepth : Nat

namespace UndoHistory

/-- The depth of a history for which none is chosen. -/
def defaultDepth : Nat := 1000

/-- Nothing to undo. -/
def empty : UndoHistory := ⟨[], defaultDepth⟩

/-- Choose the greatest depth, which is at least 1. What is on the stack stays until the next
    push. -/
def withMaxDepth (h : UndoHistory) (depth : Nat) : UndoHistory := { h with maxDepth := max depth 1 }

/-- Put a memory on the stack. -/
def push (h : UndoHistory) (m : Memory) : UndoHistory :=
  { h with memories := (m :: h.memories).take h.maxDepth }

/-- Take the newest memory off the stack and put it back into the sprite. -/
def undo? (h : UndoHistory) (s : Sprite) : Option (UndoHistory × Sprite) :=
  match h.memories with
  | [] => none
  | m :: rest => some ({ h with memories := rest }, m.restore s)

/-- Forget everything. -/
def clear (h : UndoHistory) : UndoHistory := { h with memories := [] }

/-- The newest memory. -/
def newest? (h : UndoHistory) : Option Memory := h.memories.head?

/-- How many memories there are. -/
def depth (h : UndoHistory) : Nat := h.memories.length

/-- The JSON form of a history, the oldest memory first. -/
def toJson (h : UndoHistory) : Json :=
  .object [("snapshots", .ofList Memory.toJson h.memories.reverse),
    ("max_depth", .ofNat h.maxDepth)]

/-- Read a history. -/
def ofJson? (json : Json) : Option UndoHistory := do
  let members ← json.members? (Json.plainFields ["snapshots", "max_depth"])
  let memories ← Json.required? "snapshots" (Json.asList? Memory.ofJson?) members
  let maxDepth ← Json.required? "max_depth" Json.asNat? members
  some ⟨memories.reverse, maxDepth⟩

end UndoHistory

end SpriteStage

import SpriteStage.Clock
import SpriteStage.Sprite.State
set_option autoImplicit false

/-! # The agenda

Everything that is to happen later stands in one agenda: the next step of a run, the clearing of a
cell, the next tick of the demo. Entries are ordered by the instant at which they are due and, for
the same instant, by the order in which they were scheduled. Cancelling takes entries away and
changes nothing else. -/

namespace SpriteStage

/-- The number of a run; later runs have larger numbers. -/
abbrev RunId := Nat

/-- The number of a run as people write it. -/
def RunId.text (id : RunId) : String := s!"#{id}"

/-- Something that is to happen at an instant. -/
inductive Timer where
  | step (run : RunId) (index : Nat)
  | clear (cell : Cell) (version : Nat)
  | demoTick (session : Nat)
deriving DecidableEq

namespace Timer

/-- The kind of a timer by name. -/
def label : Timer → String
  | .step _ _ => "step"
  | .clear .speech _ => "clear_speech"
  | .clear .glide _ => "clear_animation"
  | .demoTick _ => "choreography_tick"

/-- Whether a timer makes the next step of a run. -/
def isStep : Timer → Bool
  | .step _ _ => true
  | _ => false

/-- Whether a timer clears a cell. -/
def isClear : Timer → Bool
  | .clear _ _ => true
  | _ => false

/-- Whether a timer moves the demo on. -/
def isDemoTick : Timer → Bool
  | .demoTick _ => true
  | _ => false

end Timer

/-- An entry of the agenda. -/
structure Appointment where
  due : Instant
  seq : Nat
  timer : Timer
deriving DecidableEq

/-- The order of entries: the one that is due earlier comes first, and of those due at the same
    instant the one that was scheduled earlier. -/
def Appointment.Before (a b : Appointment) : Prop :=
  a.due < b.due ∨ (a.due = b.due ∧ a.seq < b.seq)

instance (a b : Appointment) : Decidable (a.Before b) := inferInstanceAs (Decidable (_ ∨ _))

/-- The agenda: its entries in order, and the number that the next one gets. -/
structure Agenda where
  entries : List Appointment
  nextSeq : Nat

namespace Agenda

/-- Nothing to do. -/
def empty : Agenda := ⟨[], 0⟩

/-- Put an entry behind all that come before it. -/
def insert (entry : Appointment) : List Appointment → List Appointment
  | [] => [entry]
  | first :: rest =>
    if first.Before entry then first :: insert entry rest else entry :: first :: rest

/-- Schedule a timer. -/
def schedule (a : Agenda) (due : Instant) (timer : Timer) : Agenda :=
  ⟨insert ⟨due, a.nextSeq, timer⟩ a.entries, a.nextSeq + 1⟩

/-- Take the entry that comes before all others if it is due by an instant. -/
def popDue? (a : Agenda) (limit : Instant) : Option (Appointment × Agenda) :=
  match a.entries with
  | [] => none
  | first :: rest => if first.due ≤ limit then some (first, { a with entries := rest }) else none

/-- The instant at which the first entry is due. -/
def nextDue? (a : Agenda) : Option Instant := a.entries.head?.map (·.due)

/-- Take away all entries whose timer satisfies a condition. -/
def cancel (a : Agenda) (condition : Timer → Bool) : Agenda :=
  { a with entries := a.entries.filter (!condition ·.timer) }

/-- Whether some timer satisfies a condition. -/
def any (a : Agenda) (condition : Timer → Bool) : Bool := a.entries.any (condition ·.timer)

/-- How many entries there are. -/
def size (a : Agenda) : Nat := a.entries.length

/-- How many entries cancelling takes away. -/
def cancelCount (a : Agenda) (condition : Timer → Bool) : Nat := a.size - (a.cancel condition).size

/-- Whether there are no entries. -/
def isEmpty (a : Agenda) : Bool := a.entries.isEmpty

end Agenda

end SpriteStage

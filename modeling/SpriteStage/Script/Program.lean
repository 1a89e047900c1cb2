import SpriteStage.Action.Descriptor
import SpriteStage.Json.Reader
set_option autoImplicit false

/-! # Programs

A program is a list of groups, each a list of actions, and perhaps one action that is performed once
when the program is loaded. It is written as a draft, made of descriptors; `Program.ofDraft` checks
them all and reports the first that is wrong, with its place. -/

namespace SpriteStage

/-! ## Drafts -/

/-- A program as it is written. -/
structure Draft where
  groups : List (List Descriptor)
  clicked : Option Descriptor

namespace Draft

/-- The JSON form of a group. -/
def groupToJson (items : List Descriptor) : Json :=
  .object [("items", .ofList Descriptor.toJson items)]

/-- Read a group. -/
def groupOfJson? (json : Json) : Option (List Descriptor) := do
  let members ← json.members? (Json.defaultFields ["items"])
  Json.defaulted? "items" (Json.asList? Descriptor.ofJson?) [] members

/-- The JSON form of a draft. -/
def toJson (d : Draft) : Json :=
  .object [("groups", .ofList groupToJson d.groups),
    ("clicked", .ofOption Descriptor.toJson d.clicked)]

/-- Read a draft. -/
def ofJson? (json : Json) : Option Draft := do
  let members ← json.members? (Json.defaultFields ["groups", "clicked"])
  let groups ← Json.defaulted? "groups" (Json.asList? groupOfJson?) [] members
  let clicked ← Json.optional? "clicked" Descriptor.ofJson? members
  some ⟨groups, clicked⟩

/-- Read the text of a draft. -/
def parse? (text : String) : Option Draft := (Json.parse? text).bind ofJson?

end Draft

/-! ## Checked programs -/

/-- Actions that belong together. -/
abbrev Group := List Action

/-- A program whose descriptors have been checked. -/
structure Program where
  groups : List Group
  clicked : Option Action

/-- What is wrong with a program. Groups and their items are counted from 0. -/
inductive ProgramError where
  | unreadable
  | invalidAction (group item : Nat) (cause : ActionError)
  | invalidClicked (cause : ActionError)

namespace ProgramError

/-- The wording of an error, that of its cause included. -/
def message : ProgramError → String
  | .unreadable => "程序 JSON 解析失败: 不是程序"
  | .invalidAction group item cause => s!"第 {group} 组第 {item} 项：" ++ cause.message
  | .invalidClicked cause => "单次点击动作：" ++ cause.message

/-- The error and the causes behind it, outermost first. -/
def chain (e : ProgramError) : List String :=
  match e with
  | .unreadable => [e.message]
  | .invalidAction _ _ cause | .invalidClicked cause => [e.message, cause.message]

end ProgramError

namespace Group

/-- Whether a trigger stands in a group. -/
def respondsTo (g : Group) (event : Trigger) : Bool :=
  g.any fun
    | .trigger e => e == event
    | _ => false

/-- Whether any trigger stands in a group. -/
def hasTrigger (g : Group) : Bool := g.any Action.isTrigger

end Group

namespace Program

/-- The program that does nothing. -/
def empty : Program := ⟨[], none⟩

/-- Whether there are no groups. -/
def isEmpty (p : Program) : Bool := p.groups.isEmpty

/-- The groups in which a trigger stands, in order. -/
def groupsFor (p : Program) (event : Trigger) : List Group :=
  p.groups.filter (·.respondsTo event)

/-- All actions of all groups in one row. -/
def flatten (p : Program) : List Action := p.groups.flatten

/-- Check the descriptors of a group, counting from an item on. -/
def checkItems (group item : Nat) : List Descriptor → Except ProgramError Group
  | [] => .ok []
  | d :: rest =>
    match Action.ofDescriptor d with
    | .error cause => .error (.invalidAction group item cause)
    | .ok action => (checkItems group (item + 1) rest).map (action :: ·)

/-- Check groups, counting from one on. -/
def checkGroups (group : Nat) : List (List Descriptor) → Except ProgramError (List Group)
  | [] => .ok []
  | items :: rest => do
    let g ← checkItems group 0 items
    let rest ← checkGroups (group + 1) rest
    return g :: rest

/-- Check the action for a single click, if there is one. -/
def checkClicked : Option Descriptor → Except ProgramError (Option Action)
  | none => .ok none
  | some d =>
    match Action.ofDescriptor d with
    | .error cause => .error (.invalidClicked cause)
    | .ok action => .ok (some action)

/-- Check a draft: first the groups in order, then the single click. -/
def ofDraft (d : Draft) : Except ProgramError Program := do
  let groups ← checkGroups 0 d.groups
  let clicked ← checkClicked d.clicked
  return ⟨groups, clicked⟩

/-- Read and check the text of a program. -/
def parse (text : String) : Except ProgramError Program :=
  match Draft.parse? text with
  | none => .error .unreadable
  | some draft => ofDraft draft

end Program

end SpriteStage

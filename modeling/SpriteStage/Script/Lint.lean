import SpriteStage.Script.Program
set_option autoImplicit false

/-! # Remarks on a draft

`Draft.remarks` looks at a whole draft and reports all that is wrong or odd, where loading it stops
at the first error. What counts as an error is decided by `Action.ofDescriptor`, as for loading. -/

namespace SpriteStage

/-- How serious a remark is. -/
inductive Severity where
  | info
  | warn
  | error
deriving DecidableEq

/-- The part of a program that a remark is about. -/
inductive Location where
  | group (group : Nat)
  | item (group item : Nat)
  | clicked
deriving DecidableEq

/-- What there is to say about a part of a program. -/
inductive Finding where
  | invalid (error : ActionError) (bag : ParameterBag)
  | unknownAction (name : String)
  /-- `set_y` keeps a fraction, other than `set_x`. -/
  | fractionalY (y : Float)
  | emptyGroup
  | noTrigger

/-- A finding and its place. -/
structure Remark where
  location : Location
  finding : Finding

namespace Severity

/-- The name of a severity. -/
def name : Severity → String
  | info => "INFO"
  | warn => "WARN"
  | error => "ERROR"

/-- The place of a severity in their order, the least serious first. -/
def rank : Severity → Nat
  | info => 0
  | warn => 1
  | error => 2

end Severity

/-- The place as it stands behind the name of the program. -/
def Location.text : Location → String
  | .group g => s!"[{g}]"
  | .item g i => s!"[{g}][{i}]"
  | .clicked => "[clicked]"

namespace Finding

/-- How serious a finding is. -/
def severity : Finding → Severity
  | .invalid _ _ => .error
  | .unknownAction _ | .emptyGroup | .noTrigger => .warn
  | .fractionalY _ => .info

/-- The wording of a finding. -/
def message : Finding → String
  | .invalid error _ => error.message
  | .unknownAction name => "未知动作类型: " ++ name
  | .fractionalY y => "set_y 使用原始数值 " ++ decimalText .plain y ++ "，不会取整"
  | .emptyGroup => "空的动作组"
  | .noTrigger => "动作组没有触发器"

/-- More about a finding, where there is more. -/
def detail? : Finding → Option String
  | .invalid _ bag => some ("initialValue = " ++ bag.value.compact)
  | .unknownAction _ => some "运行时将作为空操作"
  | .noTrigger => some "只能通过全部运行执行"
  | _ => none

end Finding

namespace Remark

/-- How serious a remark is. -/
def severity (r : Remark) : Severity := r.finding.severity

/-- A remark on the program with this name, with the detail on a second line. -/
def text (program : String) (r : Remark) : String :=
  let line := "[" ++ r.severity.name ++ "] " ++ program ++ r.location.text ++ ": "
    ++ r.finding.message
  match r.finding.detail? with
  | some detail => line ++ "\n  | " ++ detail
  | none => line

end Remark

/-! ## Looking at a draft -/

/-- What there is to say about a checked action. -/
def Action.findings : Action → List Finding
  | .unknown name => [.unknownAction name]
  | .setY y => if isWhole y then [] else [.fractionalY y]
  | _ => []

/-- What there is to say about a descriptor. -/
def Descriptor.findings (d : Descriptor) : List Finding :=
  match Action.ofDescriptor d with
  | .error e => [.invalid e d.bag]
  | .ok action => action.findings

/-- Whether a descriptor makes a trigger. -/
def Descriptor.isTrigger (d : Descriptor) : Bool :=
  match Action.ofDescriptor d with
  | .error _ => false
  | .ok action => action.isTrigger

namespace Draft

/-- Remarks on the items of a group, counting from one on. -/
def itemRemarks (group item : Nat) : List Descriptor → List Remark
  | [] => []
  | d :: rest => d.findings.map (⟨.item group item, ·⟩) ++ itemRemarks group (item + 1) rest

/-- Remarks on a group: on its items, then on the group. -/
def groupRemarks (group : Nat) (items : List Descriptor) : List Remark :=
  if items.isEmpty then [⟨.group group, .emptyGroup⟩]
  else
    itemRemarks group 0 items
      ++ if items.any Descriptor.isTrigger then [] else [⟨.group group, .noTrigger⟩]

/-- Remarks on groups, counting from one on. -/
def groupsRemarks (group : Nat) : List (List Descriptor) → List Remark
  | [] => []
  | items :: rest => groupRemarks group items ++ groupsRemarks (group + 1) rest

/-- Remarks on the action for a single click. -/
def clickedRemarks : Option Descriptor → List Remark
  | none => []
  | some d => d.findings.map (⟨.clicked, ·⟩)

/-- All there is to say about a draft: the groups in order, then the single click. -/
def remarks (d : Draft) : List Remark := groupsRemarks 0 d.groups ++ clickedRemarks d.clicked

end Draft

/-! ## Counting -/

/-- How many remarks have this severity. -/
def countRemarks (severity : Severity) (remarks : List Remark) : Nat :=
  remarks.countP (·.severity == severity)

end SpriteStage

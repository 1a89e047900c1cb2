import SpriteStage.Action.Descriptor
set_option autoImplicit false

/-! # Which parameters an action reads

`Descriptor.parameterTable` lists, for each action that has parameters, what it reads and in which
order. Nothing else of a bag matters: two bags that hold the same under the listed names make the
same action, or fail with the same error. A descriptor fails exactly if one of its parameters is
missing, is no value of the wanted form, or is a delay that is too long; the first that is so is
reported (`Descriptor.makes_action_of_parameters`). -/

namespace SpriteStage

/-! ## What a value stands for -/

namespace Json

/-- The whole number that a value stands for: a number rounded toward zero, or the integer at the
    start of a string. -/
def wholeNumber? : Json → Option Float
  | .number n => some (truncate n.toFloat) |>.filter Float.isFinite
  | .string s => leadingInteger? s.toList |>.filter Float.isFinite
  | _ => none

/-- The number that a value stands for: a number as it is, or a string that is one as a whole. -/
def exactNumber? : Json → Option Float
  | .number n => some n.toFloat |>.filter Float.isFinite
  | .string s => numeral? (trim s.toList) |>.filter Float.isFinite
  | _ => none

/-- The text that a value stands for. -/
def plainText? : Json → Option String
  | .string s => some s
  | .number n => some n.text
  | .bool b => some (toString b)
  | _ => none

end Json

/-! ## Parameters and what is wrong with them -/

namespace Descriptor

/-- What a parameter has to be. -/
inductive Form where
  | integer
  | number
  | delay
  | text
deriving DecidableEq

/-- A parameter that an action reads. -/
structure Parameter where
  name : String
  form : Form
  /-- The parameter that stands in for this one where it is missing. -/
  substitute : Option String := none
deriving DecidableEq

/-- The names under which a parameter is looked for. -/
def Parameter.names (p : Parameter) : List String := p.name :: p.substitute.toList

/-- The name under which a parameter is read from a bag. -/
def Parameter.nameIn (p : Parameter) (bag : ParameterBag) : String :=
  match bag.get? p.name with
  | some _ => p.name
  | none => p.substitute.getD p.name

/-- What is wrong with a value of a parameter. -/
def Form.fault? (form : Form) (action parameter : String) (value : Json) : Option ActionError :=
  match form with
  | .integer =>
    if value.wholeNumber?.isSome then none else some (.notANumber action parameter value)
  | .number =>
    if value.exactNumber?.isSome then none else some (.notANumber action parameter value)
  | .delay =>
    match value.wholeNumber? with
    | none => some (.notANumber action parameter value)
    | some seconds =>
      if seconds > longestDelay then some (.delayTooLong action parameter seconds) else none
  | .text => if value.plainText?.isSome then none else some (.notText action parameter)

/-- What is wrong with a parameter of a descriptor: it is missing, or its value is not right. -/
def fault? (d : Descriptor) (p : Parameter) : Option ActionError :=
  match d.bag.get? (p.nameIn d.bag) with
  | none => some (.missingParameter d.name (p.nameIn d.bag))
  | some value => p.form.fault? d.name (p.nameIn d.bag) value

/-- The parameters of all actions that have some, in the order in which they are read. -/
def parameterTable : List (String × List Parameter) :=
  [("move", [⟨"x", .integer, none⟩]),
    ("go_to", [⟨"x", .integer, none⟩, ⟨"y", .integer, none⟩]),
    ("clockwise", [⟨"rotation", .integer, none⟩]),
    ("anticlockwise", [⟨"rotation", .integer, none⟩]),
    ("glide", [⟨"x", .integer, none⟩, ⟨"y", .integer, none⟩, ⟨"delay", .delay, none⟩]),
    ("custom_action", [⟨"x", .number, none⟩, ⟨"y", .integer, none⟩, ⟨"delay", .delay, none⟩]),
    ("glide_random", [⟨"delay", .delay, some "seconds"⟩]),
    ("point_in_direction", [⟨"direction", .integer, none⟩]),
    ("change_x_by", [⟨"x", .integer, none⟩]),
    ("set_x", [⟨"x", .integer, none⟩]),
    ("change_y_by", [⟨"y", .integer, none⟩]),
    ("set_y", [⟨"y", .number, none⟩]),
    ("say", [⟨"message", .text, none⟩]),
    ("say_for_seconds", [⟨"message", .text, none⟩, ⟨"delay", .delay, none⟩]),
    ("think", [⟨"message", .text, none⟩]),
    ("think_for_seconds", [⟨"message", .text, none⟩, ⟨"delay", .delay, none⟩]),
    ("change_size", [⟨"size", .number, none⟩])]

/-- The parameters of an action. -/
def parametersOf (action : String) : List Parameter := (parameterTable.lookup action).getD []

end Descriptor

namespace ActionError

/-- The action whose descriptor is wrong. -/
def action : ActionError → String
  | .missingParameter action _ | .notANumber action _ _ | .delayTooLong action _ _
  | .notText action _ => action

/-- The parameter that is wrong. -/
def parameter : ActionError → String
  | .missingParameter _ parameter | .notANumber _ parameter _ | .delayTooLong _ parameter _
  | .notText _ parameter => parameter

end ActionError

namespace Descriptor

theorem Form.names_of_fault? {form : Form} {action parameter : String} {value : Json}
    {e : ActionError} (h : form.fault? action parameter value = some e) :
    e.action = action ∧ e.parameter = parameter := by
  cases form <;> simp only [fault?] at h <;> split at h <;>
    grind [ActionError.action, ActionError.parameter]

/-- What is wrong with a parameter is reported under its name. -/
theorem names_of_fault? {d : Descriptor} {p : Parameter} {e : ActionError}
    (h : d.fault? p = some e) : e.action = d.name ∧ e.parameter = p.nameIn d.bag := by
  unfold fault? at h
  split at h
  · obtain rfl := Option.some.inj h
    exact ⟨rfl, rfl⟩
  · exact Form.names_of_fault? h

theorem fault?_eq (d : Descriptor) (name : String) (form : Form) :
    d.fault? ⟨name, form, none⟩ = match d.bag.get? name with
      | none => some (.missingParameter d.name name)
      | some value => form.fault? d.name name value := by
  have hname : (⟨name, form, none⟩ : Parameter).nameIn d.bag = name := by
    unfold Parameter.nameIn
    split <;> rfl
  rw [fault?, hname]

/-- A parameter with a substitute is wrong as it is, or as the substitute if it is missing. -/
theorem fault?_substitute (d : Descriptor) (name other : String) (form : Form) :
    d.fault? ⟨name, form, some other⟩ = match d.bag.get? name with
      | none => d.fault? ⟨other, form, none⟩
      | some _ => d.fault? ⟨name, form, none⟩ := by
  simp only [fault?_eq]
  cases hvalue : d.bag.get? name with
  | none => simp only [fault?, Parameter.nameIn, hvalue, Option.getD_some]
  | some value => simp only [fault?, Parameter.nameIn, hvalue]

/-! ## Computations that read parameters -/

/-- A computation on bags reads some parameters in their order: it fails as the first of them that
    is wrong, and nothing else of the bag matters. -/
structure Takes {α : Type} (action : String) (parameters : List Parameter)
    (make : ParameterBag → Except ActionError α) : Prop where
  fails : ∀ bag e, make bag = .error e ↔ parameters.findSome? (fault? ⟨action, bag⟩) = some e
  same : ∀ bag bag', (∀ p ∈ parameters, ∀ name ∈ p.names, bag.get? name = bag'.get? name) →
    make bag = make bag'

namespace Takes

variable {α β : Type} {action : String} {p : Parameter} {parameters : List Parameter}

theorem ok (a : α) : Takes action [] fun _ => (.ok a : Except ActionError α) where
  fails _ _ := by simp
  same _ _ _ := rfl

/-- A computation reads one parameter first and the others afterwards, as the value of the first
    tells. -/
theorem andThen {first : ParameterBag → Except ActionError β}
    {next : β → ParameterBag → Except ActionError α} (hfirst : Takes action [p] first)
    (hnext : ∀ b, Takes action parameters (next b)) :
    Takes action (p :: parameters) fun bag => first bag >>= fun b => next b bag where
  fails bag e := by
    have hfails : ∀ e, first bag = .error e ↔ fault? ⟨action, bag⟩ p = some e := by
      simpa only [List.findSome?_singleton] using hfirst.fails bag
    cases hresult : first bag with
    | error cause =>
        have hfault := (hfails cause).1 hresult
        simp [hfault, bind, Except.bind]
    | ok b =>
        have hnone : fault? ⟨action, bag⟩ p = none := by
          refine Option.eq_none_iff_forall_ne_some.2 fun cause hcause => ?_
          cases hresult.symm.trans ((hfails cause).2 hcause)
        rw [List.findSome?_cons, hnone]
        exact (hnext b).fails bag e
  same bag bag' h := by
    obtain ⟨hp, hparameters⟩ := List.forall_mem_cons.1 h
    rw [hfirst.same bag bag' (by simpa using hp)]
    exact congrArg (first bag' >>= ·) (funext fun b => (hnext b).same bag bag' hparameters)

/-- What becomes of a value that has been read changes nothing about the reading. -/
theorem map {make : ParameterBag → Except ActionError β} (h : Takes action [p] make)
    (f : β → α) : Takes action [p] fun bag => make bag >>= fun b => .ok (f b) :=
  h.andThen fun b => .ok (f b)

/-- A parameter is missing, or its value is taken if it is right. -/
theorem of_value {name : String} {form : Form} {take : Json → Except ActionError α}
    (htake : ∀ value e, take value = .error e ↔ form.fault? action name value = some e) :
    Takes action [⟨name, form, none⟩] fun bag =>
      (require ⟨action, bag⟩ name) >>= take where
  fails bag e := by
    rw [List.findSome?_singleton, fault?_eq, require]
    cases bag.get? name with
    | none => simp [bind, Except.bind]
    | some value => exact htake value e
  same bag bag' h := by
    have hvalue : bag.get? name = bag'.get? name := h _ List.mem_cons_self _ List.mem_cons_self
    simp only [require, hvalue]

/-- Where a parameter is missing its substitute is read. -/
theorem either {name other : String} {form : Form}
    {make : String → ParameterBag → Except ActionError α}
    (h : ∀ name, Takes action [⟨name, form, none⟩] (make name)) :
    Takes action [⟨name, form, some other⟩] fun bag =>
      match bag.get? name with
      | some _ => make name bag
      | none => make other bag where
  fails bag e := by
    rw [List.findSome?_singleton, fault?_substitute]
    cases bag.get? name with
    | none => simpa only [List.findSome?_singleton] using (h other).fails bag e
    | some _ => simpa only [List.findSome?_singleton] using (h name).fails bag e
  same bag bag' hsame := by
    have hnames := hsame _ List.mem_cons_self
    have hvalue : bag.get? name = bag'.get? name := hnames _ List.mem_cons_self
    have hother : bag.get? other = bag'.get? other := hnames _ (by simp [Parameter.names])
    simp only [hvalue]
    cases bag'.get? name with
    | none => exact (h other).same bag bag' (by simpa [Parameter.names] using hother)
    | some _ => exact (h name).same bag bag' (by simpa [Parameter.names] using hvalue)

end Takes

/-! ## The ways to read a parameter -/

theorem integer_eq (d : Descriptor) (name : String) :
    d.integer name = d.require name >>= fun value => match value.wholeNumber? with
      | some x => .ok x
      | none => .error (.notANumber d.name name value) := by
  refine congrArg (d.require name >>= ·) (funext fun value => ?_)
  cases value <;> rfl

theorem number_eq (d : Descriptor) (name : String) :
    d.number name = d.require name >>= fun value => match value.exactNumber? with
      | some x => .ok x
      | none => .error (.notANumber d.name name value) := by
  refine congrArg (d.require name >>= ·) (funext fun value => ?_)
  cases value <;> rfl

theorem text_eq (d : Descriptor) (name : String) :
    d.text name = d.require name >>= fun value => match value.plainText? with
      | some s => .ok s
      | none => .error (.notText d.name name) := by
  refine congrArg (d.require name >>= ·) (funext fun value => ?_)
  cases value <;> rfl

theorem delayMs_eq (d : Descriptor) (name : String) :
    d.delayMs name = d.require name >>= fun value => match value.wholeNumber? with
      | some seconds =>
        if seconds > longestDelay then .error (.delayTooLong d.name name seconds)
        else .ok (1000 * wholePart seconds)
      | none => .error (.notANumber d.name name value) := by
  rw [delayMs, integer_eq]
  cases d.require name with
  | error _ => rfl
  | ok value =>
      simp only [bind, Except.bind]
      cases value.wholeNumber? <;> rfl

namespace Takes

theorem integer (action name : String) :
    Takes action [⟨name, .integer, none⟩] fun bag => Descriptor.integer ⟨action, bag⟩ name := by
  simp only [integer_eq]
  refine .of_value fun value e => ?_
  unfold Form.fault?
  cases value.wholeNumber? <;> simp

theorem number (action name : String) :
    Takes action [⟨name, .number, none⟩] fun bag => Descriptor.number ⟨action, bag⟩ name := by
  simp only [number_eq]
  refine .of_value fun value e => ?_
  unfold Form.fault?
  cases value.exactNumber? <;> simp

theorem text (action name : String) :
    Takes action [⟨name, .text, none⟩] fun bag => Descriptor.text ⟨action, bag⟩ name := by
  simp only [text_eq]
  refine .of_value fun value e => ?_
  unfold Form.fault?
  cases value.plainText? <;> simp

theorem delay (action name : String) :
    Takes action [⟨name, .delay, none⟩] fun bag => delayMs ⟨action, bag⟩ name := by
  simp only [delayMs_eq]
  refine .of_value fun value e => ?_
  unfold Form.fault?
  cases value.wholeNumber? with
  | none => simp
  | some seconds => by_cases hlong : seconds > longestDelay <;> simp [hlong]

end Takes

/-! ## The parameters of actions -/

/-- An action that has no parameters is made whatever the bag holds. -/
theorem exists_of_not_listed {action : String} (h : action ∉ parameterTable.map (·.1)) :
    ∃ made, ∀ bag, Action.ofDescriptor ⟨action, bag⟩ = .ok made := by
  cases htrigger : Trigger.ofName? action with
  | some event => exact ⟨.trigger event, fun bag => by rw [Action.ofDescriptor, htrigger]⟩
  | none =>
      by_cases hrandom : action = "random"
      · subst hrandom
        exact ⟨.random, fun _ => rfl⟩
      · by_cases hpointer : action = "mouse_pointer"
        · subst hpointer
          exact ⟨.pointTowardsPointer, fun _ => rfl⟩
        · refine ⟨.unknown action, fun bag => ?_⟩
          rw [Action.ofDescriptor, htrigger]
          simp only [parameterTable, List.map_cons, List.map_nil, List.mem_cons, List.not_mem_nil,
            or_false, not_or] at h
          simp only
          split <;> simp_all [pure, Except.pure]

/-- Every action reads the parameters that stand in the table. -/
theorem takes_parametersOf (action : String) :
    Takes action (parametersOf action) fun bag => Action.ofDescriptor ⟨action, bag⟩ := by
  by_cases hlisted : action ∈ parameterTable.map (·.1)
  · simp only [parameterTable, List.map_cons, List.map_nil, List.mem_cons, List.not_mem_nil,
      or_false] at hlisted
    rcases hlisted with rfl | rfl | rfl | rfl | rfl | rfl | rfl | rfl | rfl | rfl | rfl | rfl |
      rfl | rfl | rfl | rfl | rfl
    · exact (Takes.integer _ "x").map Action.move
    · exact (Takes.integer _ "x").andThen fun x => (Takes.integer _ "y").map (Action.goTo x)
    · exact (Takes.integer _ "rotation").map Action.turn
    · exact (Takes.integer _ "rotation").map fun degrees => Action.turn (-degrees)
    · exact (Takes.integer _ "x").andThen fun x => (Takes.integer _ "y").andThen fun y =>
        (Takes.delay _ "delay").map (Action.glide x y)
    · exact (Takes.number _ "x").andThen fun dx => (Takes.integer _ "y").andThen fun dy =>
        (Takes.delay _ "delay").map (Action.glideBy dx dy)
    · exact .either fun name => (Takes.delay _ name).map Action.glideRandom
    · exact (Takes.integer _ "direction").map Action.pointInDirection
    · exact (Takes.integer _ "x").map Action.changeXBy
    · exact (Takes.integer _ "x").map Action.setX
    · exact (Takes.integer _ "y").map Action.changeYBy
    · exact (Takes.number _ "y").map Action.setY
    · exact (Takes.text _ "message").map fun message => Action.speak message .say none
    · exact (Takes.text _ "message").andThen fun message =>
        (Takes.delay _ "delay").map fun ms => Action.speak message .say (some ms)
    · exact (Takes.text _ "message").map fun message => Action.speak message .think none
    · exact (Takes.text _ "message").andThen fun message =>
        (Takes.delay _ "delay").map fun ms => Action.speak message .think (some ms)
    · exact (Takes.number _ "size").map Action.changeSize
  · have hnone : parametersOf action = [] := by
      rw [parametersOf, List.lookup_eq_none_iff.2]
      · rfl
      · intro row hrow
        have hne : action ≠ row.1 := fun heq => hlisted (heq ▸ List.mem_map_of_mem hrow)
        simpa using hne
    obtain ⟨made, hmade⟩ := exists_of_not_listed hlisted
    simp only [hnone, hmade]
    exact .ok made

/-- A descriptor fails as the first of its parameters that is wrong, and only then. -/
theorem error_iff {action : String} {bag : ParameterBag} {e : ActionError} :
    Action.ofDescriptor ⟨action, bag⟩ = .error e ↔ ∃ earlier p later,
      parametersOf action = earlier ++ p :: later ∧ fault? ⟨action, bag⟩ p = some e ∧
      ∀ q ∈ earlier, fault? ⟨action, bag⟩ q = none := by
  rw [(takes_parametersOf action).fails, List.findSome?_eq_some_iff]

end Descriptor

/-- A parameter counts as missing if the bag is no object, has no such member, or has null there. -/
theorem ParameterBag.get?_eq_none_iff {bag : ParameterBag} {name : String} :
    bag.get? name = none ↔ ∀ members, bag.value = .object members →
      members.lookup name = none ∨ members.lookup name = some .null := by
  unfold get?
  cases bag.value with
  | object members =>
      simp only [Json.member?, Json.object.injEq, forall_eq']
      cases members.lookup name with
      | none => simp
      | some value => cases value <;> simp
  | _ => simp [Json.member?]

open Descriptor in
/-- An action is made of its parameters alone. Bags that hold the same under their names make the
    same of it; one that has no parameters is made in any case. A descriptor fails exactly if one of
    its parameters is wrong, and the first that is wrong is reported, under the name at which it was
    looked for. -/
theorem Descriptor.makes_action_of_parameters (action : String) :
    (∀ bag name, ParameterBag.get? bag name = none ↔ ∀ members, bag.value = .object members →
      members.lookup name = none ∨ members.lookup name = some .null) ∧
    (∀ bag bag', (∀ p ∈ parametersOf action, ∀ name ∈ p.names, bag.get? name = bag'.get? name) →
      Action.ofDescriptor ⟨action, bag⟩ = Action.ofDescriptor ⟨action, bag'⟩) ∧
    (action ∉ parameterTable.map (·.1) →
      ∃ made, ∀ bag, Action.ofDescriptor ⟨action, bag⟩ = .ok made) ∧
    (∀ bag, (∃ e, Action.ofDescriptor ⟨action, bag⟩ = .error e) ↔
      ∃ p ∈ parametersOf action, ∃ e, fault? ⟨action, bag⟩ p = some e) ∧
    (∀ bag e, Action.ofDescriptor ⟨action, bag⟩ = .error e →
      ∃ earlier p later, parametersOf action = earlier ++ p :: later ∧
        (∀ q ∈ earlier, fault? ⟨action, bag⟩ q = none) ∧ fault? ⟨action, bag⟩ p = some e ∧
        e.action = action ∧ e.parameter = p.nameIn bag) := by
  refine ⟨fun bag name => ParameterBag.get?_eq_none_iff, (takes_parametersOf action).same,
    exists_of_not_listed, fun bag => ⟨?_, ?_⟩, fun bag e herror => ?_⟩
  · rintro ⟨e, herror⟩
    obtain ⟨earlier, p, later, heq, hfault, -⟩ := error_iff.1 herror
    exact ⟨p, by simp [heq], e, hfault⟩
  · rintro ⟨p, hp, e, hfault⟩
    -- some parameter is wrong, so there is a first one
    have hsome : ((parametersOf action).findSome? (fault? ⟨action, bag⟩)).isSome = true :=
      List.findSome?_isSome_iff.2 ⟨p, hp, by rw [hfault]; rfl⟩
    obtain ⟨first, hfirst⟩ := Option.isSome_iff_exists.1 hsome
    exact ⟨first, ((takes_parametersOf action).fails bag first).2 hfirst⟩
  · obtain ⟨earlier, p, later, heq, hfault, hearlier⟩ := error_iff.1 herror
    exact ⟨earlier, p, later, heq, hearlier, hfault, names_of_fault? hfault⟩

/-- Null stands for no delay, so the seconds are read, and the note is not; a bubble that is to go
    away lacks its delay; and nobody knows how to play a sound. -/
theorem Descriptor.makes_action_of_three_bags :
    let bag : ParameterBag := ⟨.object [("delay", .null), ("note", .array [.null]),
      ("seconds", .number (.int 3))], by decide +kernel⟩
    let bag' : ParameterBag := ⟨.object [("seconds", .number (.int 3))], by decide +kernel⟩
    let lacking : ParameterBag := ⟨.object [("message", .string "hi")], by decide +kernel⟩
    let e : ActionError := .missingParameter "say_for_seconds" "delay"
    ((∀ p ∈ parametersOf "glide_random", ∀ name ∈ p.names, bag.get? name = bag'.get? name) ∧
      Action.ofDescriptor ⟨"glide_random", bag⟩ = Action.ofDescriptor ⟨"glide_random", bag'⟩) ∧
    (Action.ofDescriptor ⟨"say_for_seconds", lacking⟩ = .error e ∧
      ∃ earlier p later, parametersOf "say_for_seconds" = earlier ++ p :: later ∧
        (∀ q ∈ earlier, fault? ⟨"say_for_seconds", lacking⟩ q = none) ∧
        fault? ⟨"say_for_seconds", lacking⟩ p = some e ∧ e.action = "say_for_seconds" ∧
        e.parameter = p.nameIn lacking) ∧
    ("play_sound" ∉ parameterTable.map (·.1) ∧
      ∃ made, ∀ bag, Action.ofDescriptor ⟨"play_sound", bag⟩ = .ok made) := by
  intro bag bag' lacking e
  have hsame : ∀ p ∈ parametersOf "glide_random", ∀ name ∈ p.names,
      bag.get? name = bag'.get? name := by
    intro p hp name hname
    obtain rfl : p = ⟨"delay", .delay, some "seconds"⟩ := List.mem_singleton.1 hp
    simp only [Parameter.names, Option.toList_some, List.mem_cons, List.not_mem_nil,
      or_false] at hname
    rcases hname with rfl | rfl <;> rfl
  have herror : Action.ofDescriptor ⟨"say_for_seconds", lacking⟩ = .error e := rfl
  have hunlisted : "play_sound" ∉ parameterTable.map (·.1) := by decide +kernel
  exact ⟨⟨hsame, (makes_action_of_parameters "glide_random").2.1 bag bag' hsame⟩,
    ⟨herror, (makes_action_of_parameters "say_for_seconds").2.2.2.2 lacking e herror⟩,
    ⟨hunlisted, (makes_action_of_parameters "play_sound").2.2.1 hunlisted⟩⟩

end SpriteStage

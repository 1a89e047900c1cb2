import SpriteStage.Proofs.RecordForms
import SpriteStage.Replay.Timeline
import SpriteStage.Stage.Event
set_option autoImplicit false

/-! # Reading back what goes in and what comes out

Actions, inputs and events are records with a tag that says which fields follow. No field has the
name of its tag, nor that of the instant beside an input, so the tag is found wherever it stands,
and what is left when it is taken away is the record of the fields. With the records of
`SpriteStage.Proofs.RecordForms` this makes `wire_forms_round_trip`: all forms in which the stage
speaks with its surroundings can be read back. -/

namespace SpriteStage

/-! ## Names and parameters -/

theorem Trigger.reads (rule : ChoiceRule) (t : Trigger) : Json.Reads (ofJson? rule) t.toJson t :=
  Json.reads_choice rule (by cases t <;> rfl)

theorem Bubble.reads (rule : ChoiceRule) (b : Bubble) : Json.Reads (ofJson? rule) b.toJson b :=
  Json.reads_choice rule (by cases b <;> rfl)

theorem IgnoreReason.reads (rule : ChoiceRule) (r : IgnoreReason) :
    Json.Reads (ofJson? rule) r.toJson r :=
  Json.reads_choice rule (by cases r <;> rfl)

theorem RunOrigin.reads (rule : ChoiceRule) (origin : RunOrigin) :
    Json.Reads (ofJson? rule) origin.toJson origin := by
  intro other halike
  cases origin with
  | trigger event =>
      obtain ⟨value, rfl, hvalue⟩ := halike.single
      rw [ofJson?, event.reads rule value hvalue]
      rfl
  | runAll =>
      have hother : other = .string "run_all" := by simpa only [toJson, Json.Alike] using halike
      rw [hother]
      rfl

theorem Key.reads (rule : ChoiceRule) (key : Key) : Json.Reads (ofJson? rule) key.toJson key := by
  intro other halike
  cases key with
  | space =>
      have hother : other = .string "space" := by simpa only [toJson, Json.Alike] using halike
      rw [hother]
      rfl
  | other code =>
      obtain ⟨value, rfl, hvalue⟩ := halike.single
      rw [ofJson?, Json.reads_string code value hvalue]
      rfl

theorem ParameterBag.reads (bag : ParameterBag) : Json.Reads ofJson? bag.value bag := by
  intro other halike
  have hvalue := Json.canonical?_of_alike bag.canonical halike
  unfold ofJson?
  split
  · rename_i value hother
    obtain rfl : bag.value = value := Option.some.inj (hvalue.symm.trans hother)
    rfl
  · rename_i hother
    cases hvalue.symm.trans hother

theorem Descriptor.reads (d : Descriptor) : Json.Reads ofJson? d.toJson d := by
  refine .record (by simp) fun others hold => ?_
  refine hold.required (Json.reads_string d.name) (by simp) ?_
  exact hold.defaulted d.bag.reads (by simp) rfl

@[simp]
theorem Trigger.isReadable_toJson (t : Trigger) : t.toJson.isReadable = true := rfl

@[simp]
theorem Bubble.isReadable_toJson (b : Bubble) : b.toJson.isReadable = true := rfl

@[simp]
theorem IgnoreReason.isReadable_toJson (r : IgnoreReason) : r.toJson.isReadable = true := rfl

@[simp]
theorem RunOrigin.isReadable_toJson (origin : RunOrigin) : origin.toJson.isReadable = true := by
  cases origin <;> rfl

@[simp]
theorem Key.isReadable_toJson (key : Key) : key.toJson.isReadable = true := by
  cases key <;> rfl

@[simp]
theorem Descriptor.isReadable_toJson (d : Descriptor) : d.toJson.isReadable = true := by
  have hbag := Json.isReadable_of_isCanonical d.bag.canonical
  simp [toJson, Json.isReadable, hbag]

/-! ## Inputs -/

namespace StageInput

/-- The numbers of an input. Those in a bag of parameters are finite in any case. -/
def floats : StageInput → List Float
  | .pointerMoved p | .spriteCentre p => p.floats
  | .viewportResized width => [width]
  | _ => []

theorem input_notMem (input : StageInput) : "input" ∉ input.parameters.map (·.1) := by
  cases input <;> simp [parameters]

theorem nodup_names (input : StageInput) : (input.toMembers.map (·.1)).Nodup := by
  refine List.nodup_cons.2 ⟨input.input_notMem, ?_⟩
  cases input <;> simp [parameters]

theorem areReadable_parameters (input : StageInput) :
    Json.areReadableMembers input.parameters = true := by
  cases input <;> simp [parameters]

theorem reads_named {input : StageInput} (h : input.floats.all Float.isFinite = true) :
    Json.Reads (ofNamed? input.name) (.object input.parameters) input := by
  cases input with
  | pointerMoved p => exact (Point.reads h).map pointerMoved
  | spriteCentre p => exact (Point.reads h).map spriteCentre
  | keyDown key =>
      exact .record (by simp [parameters]) fun _ hold =>
        hold.required (Key.reads .lenient key) (by simp [parameters]) rfl
  | clicked action =>
      exact .record (by simp [parameters]) fun _ hold =>
        hold.required action.reads (by simp [parameters]) rfl
  | viewportResized width =>
      have hwidth : width.isFinite = true := by simpa [floats] using h
      exact .record (by simp [parameters]) fun _ hold =>
        hold.required (Json.reads_float hwidth) (by simp [parameters]) rfl
  | _ => exact Json.reads_nothing

theorem reads {input : StageInput} (h : input.floats.all Float.isFinite = true) :
    Json.Reads ofJson? input.toJson input :=
  .tagged rfl input.input_notMem input.areReadable_parameters (reads_named h)

/-- An input that may also be called by its place is read by its name all the same. -/
theorem reads_numbered {input : StageInput} (h : input.floats.all Float.isFinite = true) :
    Json.Reads ofNumbered? input.toJson input :=
  .tagged rfl input.input_notMem input.areReadable_parameters (reads_named h)

end StageInput

/-! ## Timelines -/

namespace TimelineEntry

/-- The numbers of an entry. -/
def floats (e : TimelineEntry) : List Float := e.input.floats

theorem atMs_notMem (e : TimelineEntry) : "at_ms" ∉ e.input.toMembers.map (·.1) := by
  obtain ⟨instant, input⟩ := e
  cases input <;> simp [StageInput.toMembers, StageInput.parameters]

theorem nodup_names (e : TimelineEntry) :
    ((("at_ms", Json.ofNat e.instant) :: e.input.toMembers).map (·.1)).Nodup :=
  List.nodup_cons.2 ⟨e.atMs_notMem, e.input.nodup_names⟩

theorem reads {e : TimelineEntry} (h : e.floats.all Float.isFinite = true) :
    Json.Reads ofJson? e.toJson e := by
  intro other halike
  obtain ⟨others, value, rfl, hvalue, hfound, hrest⟩ := halike.take e.atMs_notMem
  rw [ofJson?, hfound]
  show (do
    let instant ← value.asNat?
    let input ← StageInput.ofNumbered? (.object (others.filter (·.1 != "at_ms")))
    some (⟨instant, input⟩ : TimelineEntry)) = some e
  rw [Json.reads_nat e.instant value hvalue, StageInput.reads_numbered h _ hrest]
  rfl

end TimelineEntry

/-! ## Actions -/

namespace Action

/-- The numbers of an action. -/
def floats : Action → List Float
  | .move x | .turn x | .pointInDirection x | .changeXBy x | .setX x | .changeYBy x | .setY x
  | .changeSize x => [x]
  | .goTo x y | .glide x y _ | .glideBy x y _ => [x, y]
  | _ => []

theorem nodup_names (a : Action) :
    ∃ members, a.toJson = .object members ∧ (members.map (·.1)).Nodup := by
  cases a <;> exact ⟨_, rfl, by simp⟩

theorem reads_number {field : String} {x : Float} (make : Float → Action)
    (h : [x].all Float.isFinite = true) :
    Json.Reads (ofNumber? field make) (.object [(field, .ofFloat x)]) (make x) := by
  have hx : x.isFinite = true := by simpa using h
  exact .record (by simp) fun _ hold => hold.required (Json.reads_float hx) (by simp) rfl

theorem reads_glide {first second : String} {x y : Float} (durationMs : Nat)
    (make : Float → Float → Nat → Action) (hnames : [first, second, "duration_ms"].Nodup)
    (h : [x, y].all Float.isFinite = true) :
    Json.Reads (ofGlide? first second make)
      (.object [(first, .ofFloat x), (second, .ofFloat y), ("duration_ms", .ofNat durationMs)])
      (make x y durationMs) := by
  obtain ⟨hx, hy⟩ : x.isFinite = true ∧ y.isFinite = true := by simpa using h
  refine .record hnames fun others hold => ?_
  refine hold.required (Json.reads_float hx) (by simp) ?_
  refine hold.required (Json.reads_float hy) (by simp) ?_
  exact hold.required (Json.reads_nat durationMs) (by simp) rfl

theorem reads {a : Action} (h : a.floats.all Float.isFinite = true) :
    Json.Reads ofJson? a.toJson a := by
  cases a with
  | trigger event =>
      exact .tagged rfl (by simp) (by simp) <| .record (by simp) fun _ hold =>
        hold.required (event.reads .lenient) (by simp) rfl
  | move dx => exact .tagged rfl (by simp) (by simp) (reads_number move h)
  | goTo x y =>
      obtain ⟨hx, hy⟩ : x.isFinite = true ∧ y.isFinite = true := by simpa [floats] using h
      refine .tagged rfl (by simp) (by simp) <| .record (by simp) fun others hold => ?_
      refine hold.required (Json.reads_float hx) (by simp) ?_
      exact hold.required (Json.reads_float hy) (by simp) rfl
  | random => exact .tagged rfl (by simp) (by simp) Json.reads_nothing
  | turn degrees => exact .tagged rfl (by simp) (by simp) (reads_number turn h)
  | glide x y durationMs =>
      exact .tagged rfl (by simp) (by simp) (reads_glide durationMs glide (by simp) h)
  | glideBy dx dy durationMs =>
      exact .tagged rfl (by simp) (by simp) (reads_glide durationMs glideBy (by simp) h)
  | glideRandom durationMs =>
      exact .tagged rfl (by simp) (by simp) <| .record (by simp) fun _ hold =>
        hold.required (Json.reads_nat durationMs) (by simp) rfl
  | pointInDirection direction =>
      exact .tagged rfl (by simp) (by simp) (reads_number pointInDirection h)
  | pointTowardsPointer => exact .tagged rfl (by simp) (by simp) Json.reads_nothing
  | changeXBy dx => exact .tagged rfl (by simp) (by simp) (reads_number changeXBy h)
  | setX x => exact .tagged rfl (by simp) (by simp) (reads_number setX h)
  | changeYBy dy => exact .tagged rfl (by simp) (by simp) (reads_number changeYBy h)
  | setY y => exact .tagged rfl (by simp) (by simp) (reads_number setY h)
  | speak message bubble timeoutMs =>
      have htimeout : Json.Reads (Json.asOption? Json.asNat?) (.ofOption .ofNat timeoutMs)
          timeoutMs :=
        Json.reads_option (by simp [Json.ofNat]) fun ms _ => Json.reads_nat ms
      refine .tagged rfl (by simp) (by simp) <|
        .record (by simp) fun others hold => ?_
      refine hold.required (Json.reads_string message) (by simp) ?_
      refine hold.required (bubble.reads .lenient) (by simp) ?_
      exact hold.optional htimeout (by simp) rfl
  | changeSize delta => exact .tagged rfl (by simp) (by simp) (reads_number changeSize h)
  | unknown name =>
      exact .tagged rfl (by simp) (by simp) <| .record (by simp) fun _ hold =>
        hold.required (Json.reads_string name) (by simp) rfl

end Action

/-! ## Events -/

namespace StageEvent

/-- The numbers of an event. -/
def floats : StageEvent → List Float
  | .demoFlipped flip => flip.floats
  | _ => []

theorem event_notMem (event : StageEvent) : "event" ∉ event.parameters.map (·.1) := by
  cases event <;> simp [parameters, Flip.toMembers]

theorem nodup_names (event : StageEvent) : (event.toMembers.map (·.1)).Nodup := by
  refine List.nodup_cons.2 ⟨event.event_notMem, ?_⟩
  cases event <;> simp [parameters, Flip.toMembers]

theorem areReadable_parameters (event : StageEvent) :
    Json.areReadableMembers event.parameters = true := by
  cases event <;> simp [parameters, Flip.toMembers]

theorem reads_ofNat {field : String} (make : Nat → StageEvent) (n : Nat) :
    Json.Reads (ofNat? field make) (.object [(field, .ofNat n)]) (make n) :=
  .record (by simp) fun _ hold => hold.required (Json.reads_nat n) (by simp) rfl

theorem reads_ofString {field : String} (make : String → StageEvent) (s : String) :
    Json.Reads (ofString? field make) (.object [(field, .string s)]) (make s) :=
  .record (by simp) fun _ hold => hold.required (Json.reads_string s) (by simp) rfl

theorem reads {event : StageEvent} (h : event.floats.all Float.isFinite = true) :
    Json.Reads ofJson? event.toJson event := by
  refine .tagged rfl event.event_notMem event.areReadable_parameters ?_
  cases event with
  | runStarted run origin length =>
      refine .record (by simp [parameters]) fun others hold => ?_
      refine hold.required (Json.reads_nat run) (by simp [parameters]) ?_
      refine hold.required (origin.reads .lenient) (by simp [parameters]) ?_
      exact hold.required (Json.reads_nat length) (by simp [parameters]) rfl
  | stepApplied run index action =>
      refine .record (by simp [parameters]) fun others hold => ?_
      refine hold.required (Json.reads_nat run) (by simp [parameters]) ?_
      refine hold.required (Json.reads_nat index) (by simp [parameters]) ?_
      exact hold.required (Json.reads_string action) (by simp [parameters]) rfl
  | runFinished run => exact reads_ofNat runFinished run
  | runCancelled run atStep =>
      have hstep : Json.Reads (Json.asOption? Json.asNat?) (.ofOption .ofNat atStep) atStep :=
        Json.reads_option (by simp [Json.ofNat]) fun index _ => Json.reads_nat index
      refine .record (by simp [parameters]) fun others hold => ?_
      refine hold.required (Json.reads_nat run) (by simp [parameters]) ?_
      exact hold.optional hstep (by simp [parameters]) rfl
  | actionApplied action => exact reads_ofString actionApplied action
  | triggerIgnored trigger reason =>
      have htrigger : Json.Reads (Json.asOption? (Trigger.ofJson? .lenient))
          (.ofOption Trigger.toJson trigger) trigger :=
        Json.reads_option (by simp [Trigger.toJson]) fun event _ => event.reads .lenient
      refine .record (by simp [parameters]) fun others hold => ?_
      refine hold.optional htrigger (by simp [parameters]) ?_
      exact hold.required (reason.reads .lenient) (by simp [parameters]) rfl
  | historyPushed depth => exact reads_ofNat historyPushed depth
  | undone depth => exact reads_ofNat undone depth
  | reset => exact Json.reads_nothing
  | cleared cell =>
      cases cell with
      | speech => exact Json.reads_nothing
      | glide => exact Json.reads_nothing
  | staleTimerDropped timer => exact reads_ofString staleTimerDropped timer
  | demoOpened => exact Json.reads_nothing
  | demoClosed => exact Json.reads_nothing
  | demoStarted session => exact reads_ofNat demoStarted session
  | demoFlipped flip => exact (Flip.reads h).map demoFlipped

end StageEvent

/-! ## All forms -/

/-- The values of a type are written as records from which they can be read back. -/
structure Json.RoundTrips {α : Type} (encode : α → Json) (decode : Json → Option α)
    (floats : α → List Float) : Prop where
  /-- No name occurs twice in a record, be it that of a field, of a tag or of an instant. -/
  names : ∀ a, ∃ members, encode a = .object members ∧ (members.map (·.1)).Nodup
  /-- What has been written is read back. -/
  decode_encode : ∀ a, (floats a).all Float.isFinite = true → decode (encode a) = some a
  /-- It is read back whatever the order of members has become. -/
  decode_alike : ∀ a other, (floats a).all Float.isFinite = true → (encode a).Alike other →
    decode other = some a
  /-- What is written in the same way, up to the order of members, is the same. -/
  eq_of_alike : ∀ a b, (floats a).all Float.isFinite = true →
    (floats b).all Float.isFinite = true → (encode a).Alike (encode b) → a = b

theorem Json.RoundTrips.of_reads {α : Type} {encode : α → Json} {decode : Json → Option α}
    {floats : α → List Float}
    (hnames : ∀ a, ∃ members, encode a = .object members ∧ (members.map (·.1)).Nodup)
    (hreads : ∀ {a}, (floats a).all Float.isFinite = true → Json.Reads decode (encode a) a) :
    Json.RoundTrips encode decode floats where
  names := hnames
  decode_encode _ h := (hreads h).self
  decode_alike _ other h := hreads h other
  eq_of_alike _ _ h h' := (hreads h).eq_of_alike (hreads h')

/-- Inputs, timeline entries, events, actions, memories, histories, snapshots and settings are all
    read back as they were written, as long as their numbers are finite. -/
theorem wire_forms_round_trip :
    Json.RoundTrips StageInput.toJson StageInput.ofJson? StageInput.floats ∧
    Json.RoundTrips TimelineEntry.toJson TimelineEntry.ofJson? TimelineEntry.floats ∧
    Json.RoundTrips StageEvent.toJson StageEvent.ofJson? StageEvent.floats ∧
    Json.RoundTrips Action.toJson Action.ofJson? Action.floats ∧
    Json.RoundTrips Memory.toJson Memory.ofJson? Memory.floats ∧
    Json.RoundTrips UndoHistory.toJson UndoHistory.ofJson? UndoHistory.floats ∧
    Json.RoundTrips StageSnapshot.toJson StageSnapshot.ofJson? StageSnapshot.floats ∧
    Json.RoundTrips HostConfig.toJson HostConfig.ofJson? HostConfig.floats ∧
    Json.RoundTrips StageConfig.toJson StageConfig.ofJson? StageConfig.floats :=
  ⟨.of_reads (fun input => ⟨_, rfl, input.nodup_names⟩) StageInput.reads,
    .of_reads (fun e => ⟨_, rfl, e.nodup_names⟩) TimelineEntry.reads,
    .of_reads (fun event => ⟨_, rfl, event.nodup_names⟩) StageEvent.reads,
    .of_reads Action.nodup_names Action.reads,
    .of_reads (fun _ => ⟨_, rfl, by simp⟩) Memory.reads,
    .of_reads (fun _ => ⟨_, rfl, by simp⟩) UndoHistory.reads,
    .of_reads (fun _ => ⟨_, rfl, by simp⟩) StageSnapshot.reads,
    .of_reads (fun _ => ⟨_, rfl, by simp⟩) HostConfig.reads,
    .of_reads (fun _ => ⟨_, rfl, by simp⟩) StageConfig.reads⟩

/-- The entry of a timeline that has its instant after the input, whose parameters are free. -/
theorem timeline_entry_of_moved_instant :
    let e : TimelineEntry := ⟨120, .clicked ⟨"go_to", ⟨.object [("note", .array [.null,
      .object [("at_ms", .string "input")]]), ("x", .number (.float 0.5))], by decide +kernel⟩⟩⟩
    TimelineEntry.ofJson? (.object (e.input.toMembers ++ [("at_ms", .ofNat e.instant)])) = some e :=
  wire_forms_round_trip.2.1.decode_alike _ _ rfl <|
    Json.alike_object_iff.2 ⟨_, _, rfl, List.perm_append_singleton _ _, Json.alikeMembers_refl _⟩

end SpriteStage

import SpriteStage.Json.Canonical
import SpriteStage.Json.Record
set_option autoImplicit false

/-! # The order of members

Two JSON values are alike if they are the same up to the order in which the members of their objects
stand (`Json.Alike`). No reader of the stage looks at that order: `Json.Reads` says that a reader
finds something in a value and in all values that are alike, and there is one lemma for each shape
in which values are laid out. The names in an object have to be different, as otherwise their order
would tell which of two values is meant. -/

namespace SpriteStage

namespace Json

/-! ## Values that are alike -/

mutual

/-- Whether two values are the same but for the order of members. -/
def Alike : Json → Json → Prop
  | .array items, other => ∃ others, other = .array others ∧ AlikeItems items others
  | .object members, other => ∃ row others, other = .object others ∧ others.Perm row ∧
      AlikeMembers members row
  | value, other => other = value

/-- Items that are alike one by one. -/
def AlikeItems : List Json → List Json → Prop
  | [], others => others = []
  | item :: rest, others => ∃ other more, others = other :: more ∧ Alike item other ∧
      AlikeItems rest more

/-- Members with the same names that are alike one by one. -/
def AlikeMembers : List (String × Json) → List (String × Json) → Prop
  | [], row => row = []
  | (name, value) :: rest, row => ∃ other more, row = (name, other) :: more ∧ Alike value other ∧
      AlikeMembers rest more

end

mutual

theorem Alike.refl : ∀ value : Json, value.Alike value
  | .null | .bool _ | .number _ | .string _ | .unreadable => by simp [Alike]
  | .array items => by
      rw [Alike]
      exact ⟨items, rfl, alikeItems_refl items⟩
  | .object members => by
      rw [Alike]
      exact ⟨members, members, rfl, .refl _, alikeMembers_refl members⟩

theorem alikeItems_refl : ∀ items : List Json, AlikeItems items items
  | [] => rfl
  | item :: rest => ⟨item, rest, rfl, .refl item, alikeItems_refl rest⟩

theorem alikeMembers_refl : ∀ members : List (String × Json), AlikeMembers members members
  | [] => rfl
  | (_, value) :: rest => ⟨value, rest, rfl, .refl value, alikeMembers_refl rest⟩

end

theorem AlikeMembers.names {members row : List (String × Json)} (h : AlikeMembers members row) :
    row.map (·.1) = members.map (·.1) := by
  induction members generalizing row with
  | nil =>
      obtain rfl := h
      rfl
  | cons member rest ih =>
      obtain ⟨other, more, rfl, -, hrest⟩ := h
      rw [List.map_cons, List.map_cons, ih hrest]

theorem AlikeMembers.exists_of_mem {members row : List (String × Json)} {name : String}
    {value : Json} (h : AlikeMembers members row) (hmem : (name, value) ∈ members) :
    ∃ other, (name, other) ∈ row ∧ value.Alike other := by
  induction members generalizing row with
  | nil => cases hmem
  | cons member rest ih =>
      obtain ⟨other, more, rfl, hother, hrest⟩ := h
      rcases List.mem_cons.1 hmem with rfl | hmem
      · exact ⟨other, List.mem_cons_self, hother⟩
      · obtain ⟨found, hfound, halike⟩ := ih hrest hmem
        exact ⟨found, List.mem_cons_of_mem _ hfound, halike⟩

theorem alike_object_iff {members : List (String × Json)} {other : Json} :
    (Json.object members).Alike other ↔ ∃ row others, other = .object others ∧ others.Perm row ∧
      AlikeMembers members row := by
  rw [Alike]

theorem alike_array_iff {items : List Json} {other : Json} :
    (Json.array items).Alike other ↔ ∃ others, other = .array others ∧ AlikeItems items others := by
  rw [Alike]

/-- An object with a single member has no other order. -/
theorem Alike.single {name : String} {value other : Json}
    (h : (Json.object [(name, value)]).Alike other) :
    ∃ value', other = .object [(name, value')] ∧ value.Alike value' := by
  obtain ⟨_, others, rfl, hperm, value', _, rfl, hvalue, rfl⟩ := alike_object_iff.1 h
  exact ⟨value', congrArg Json.object (List.perm_singleton.1 hperm), hvalue⟩

/-! ## Readable values -/

@[simp]
theorem isReadable_ofFloat (x : Float) : (ofFloat x).isReadable = true := by
  unfold ofFloat
  split <;> rfl

@[simp]
theorem isReadable_ofNat (n : Nat) : (ofNat n).isReadable = true := rfl

@[simp]
theorem isReadable_string (s : String) : (string s).isReadable = true := rfl

@[simp]
theorem isReadable_ofOption {α : Type} (encode : α → Json) (o : Option α) :
    (ofOption encode o).isReadable = o.all fun a => (encode a).isReadable := by
  cases o <;> rfl

@[simp]
theorem areReadableMembers_nil : areReadableMembers [] = true := rfl

@[simp]
theorem areReadableMembers_cons (member : String × Json) (rest : List (String × Json)) :
    areReadableMembers (member :: rest) = (member.2.isReadable && areReadableMembers rest) :=
  rfl

theorem areReadableMembers_iff {members : List (String × Json)} :
    areReadableMembers members = true ↔ ∀ m ∈ members, m.2.isReadable = true := by
  induction members with
  | nil => simp
  | cons member rest ih => simp [ih]

mutual

theorem Alike.isReadable : ∀ {value other : Json}, value.Alike other → value.isReadable = true →
    other.isReadable = true
  | .null, _, h, hreadable | .bool _, _, h, hreadable | .number _, _, h, hreadable
  | .string _, _, h, hreadable | .unreadable, _, h, hreadable => by
      simp only [Alike] at h
      rwa [h]
  | .array items, _, h, hreadable => by
      obtain ⟨others, rfl, hitems⟩ := alike_array_iff.1 h
      exact areReadable_of_alike hitems hreadable
  | .object members, _, h, hreadable => by
      obtain ⟨row, others, rfl, hperm, hrow⟩ := alike_object_iff.1 h
      have hreadableRow := areReadableMembers_of_alike hrow hreadable
      rw [areReadableMembers_iff] at hreadableRow
      exact areReadableMembers_iff.2 fun m hm => hreadableRow m (hperm.mem_iff.1 hm)

theorem areReadable_of_alike : ∀ {items others : List Json}, AlikeItems items others →
    areReadable items = true → areReadable others = true
  | [], _, h, _ => by
      obtain rfl := h
      rfl
  | item :: rest, _, h, hreadable => by
      obtain ⟨other, more, rfl, hother, hrest⟩ := h
      obtain ⟨hfirst, hlater⟩ := Bool.and_eq_true_iff.1 hreadable
      exact Bool.and_eq_true_iff.2 ⟨hother.isReadable hfirst, areReadable_of_alike hrest hlater⟩

theorem areReadableMembers_of_alike : ∀ {members row : List (String × Json)},
    AlikeMembers members row → areReadableMembers members = true → areReadableMembers row = true
  | [], _, h, _ => by
      obtain rfl := h
      rfl
  | (_, value) :: rest, _, h, hreadable => by
      obtain ⟨other, more, rfl, hother, hrest⟩ := h
      obtain ⟨hfirst, hlater⟩ := Bool.and_eq_true_iff.1 hreadable
      exact Bool.and_eq_true_iff.2
        ⟨hother.isReadable hfirst, areReadableMembers_of_alike hrest hlater⟩

end

/-! ## Canonical values -/

/-- It does not matter in which order two different names are put in their places. -/
theorem insertAbsent_comm {name name' : String} (hne : name ≠ name') (value value' : Json)
    (members : List (String × Json)) :
    insertAbsent name value (insertAbsent name' value' members)
      = insertAbsent name' value' (insertAbsent name value members) := by
  induction members with
  | nil => grind [insertAbsent]
  | cons member rest ih =>
      obtain ⟨other, kept⟩ := member
      grind [insertAbsent]

/-- Without repeated names the canonical form does not depend on the order of members. -/
theorem canonicalMembers?_perm {members others : List (String × Json)} (h : members.Perm others)
    (hnames : (members.map (·.1)).Nodup) :
    canonicalMembers? members = canonicalMembers? others := by
  induction h with
  | nil => rfl
  | cons member _ ih =>
      rw [canonicalMembers?, canonicalMembers?, ih (List.nodup_cons.1 hnames).2]
  | swap first second rest =>
      obtain ⟨name, value⟩ := first
      obtain ⟨name', value'⟩ := second
      have hne : name' ≠ name := by
        intro heq
        simp [heq] at hnames
      simp only [canonicalMembers?]
      cases value.canonical? <;> cases value'.canonical? <;> cases canonicalMembers? rest <;>
        simp [insertAbsent_comm hne]
  | trans hfirst _ ih ih' => rw [ih hnames, ih' ((hfirst.map _).nodup_iff.1 hnames)]

theorem areCanonicalMembers_cons {name : String} {value : Json} {rest : List (String × Json)}
    (h : areCanonicalMembers ((name, value) :: rest) = true) :
    value.isCanonical = true ∧ (∀ m ∈ rest, name < m.1) ∧ areCanonicalMembers rest = true := by
  simp only [areCanonicalMembers, Bool.and_eq_true, List.all_eq_true, decide_eq_true_eq] at h
  exact ⟨h.1.1, h.1.2, h.2⟩

mutual

theorem isReadable_of_isCanonical : ∀ {value : Json}, value.isCanonical = true →
    value.isReadable = true
  | .null, _ | .bool _, _ | .number _, _ | .string _, _ => rfl
  | .array _, h => areReadable_of_areCanonical h
  | .object _, h => areReadableMembers_of_areCanonicalMembers h

theorem areReadable_of_areCanonical : ∀ {items : List Json}, areCanonical items = true →
    areReadable items = true
  | [], _ => rfl
  | _ :: _, h => by
      obtain ⟨hfirst, hlater⟩ := Bool.and_eq_true_iff.1 h
      exact Bool.and_eq_true_iff.2
        ⟨isReadable_of_isCanonical hfirst, areReadable_of_areCanonical hlater⟩

theorem areReadableMembers_of_areCanonicalMembers : ∀ {members : List (String × Json)},
    areCanonicalMembers members = true → areReadableMembers members = true
  | [], _ => rfl
  | (_, _) :: _, h => by
      obtain ⟨hfirst, -, hlater⟩ := areCanonicalMembers_cons h
      exact Bool.and_eq_true_iff.2
        ⟨isReadable_of_isCanonical hfirst, areReadableMembers_of_areCanonicalMembers hlater⟩

end

theorem insertAbsent_of_lt {name : String} {members : List (String × Json)}
    (h : ∀ m ∈ members, name < m.1) (value : Json) :
    insertAbsent name value members = (name, value) :: members := by
  cases members with
  | nil => rfl
  | cons member rest =>
      have hlt := h member List.mem_cons_self
      rw [insertAbsent, if_neg (String.ne_of_lt hlt), if_pos hlt]

/-- The names in a canonical object are different. -/
theorem nodup_of_areCanonicalMembers {members : List (String × Json)}
    (h : areCanonicalMembers members = true) : (members.map (·.1)).Nodup := by
  induction members with
  | nil => exact List.nodup_nil
  | cons member rest ih =>
      obtain ⟨-, habove, hrest⟩ := areCanonicalMembers_cons h
      refine List.nodup_cons.2 ⟨fun hmem => ?_, ih hrest⟩
      obtain ⟨m, hm, heq⟩ := List.mem_map.1 hmem
      exact String.ne_of_lt (habove m hm) heq.symm

mutual

/-- A canonical value is the canonical form of all values that are alike. -/
theorem canonical?_of_alike : ∀ {value other : Json}, value.isCanonical = true →
    value.Alike other → other.canonical? = some value
  | .null, _, _, h | .bool _, _, _, h | .string _, _, _, h | .number (.int _), _, _, h => by
      simp only [Alike] at h
      rw [h, canonical?]
  | .number (.float _), _, hfinite, h => by
      simp only [Alike] at h
      rw [h, canonical?]
      exact if_pos hfinite
  | .array items, _, hitems, h => by
      obtain ⟨others, rfl, hothers⟩ := alike_array_iff.1 h
      rw [canonical?, canonicalItems?_of_alike hitems hothers]
      rfl
  | .object members, _, hmembers, h => by
      obtain ⟨row, others, rfl, hperm, hrow⟩ := alike_object_iff.1 h
      have hnames : (others.map (·.1)).Nodup := by
        rw [(hperm.map _).nodup_iff, hrow.names]
        exact nodup_of_areCanonicalMembers hmembers
      rw [canonical?, canonicalMembers?_perm hperm hnames,
        canonicalMembers?_of_alike hmembers hrow]
      rfl

theorem canonicalItems?_of_alike : ∀ {items others : List Json}, areCanonical items = true →
    AlikeItems items others → canonicalItems? others = some items
  | [], _, _, h => by
      obtain rfl := h
      rfl
  | item :: rest, _, hitems, h => by
      obtain ⟨other, more, rfl, hother, hrest⟩ := h
      obtain ⟨hfirst, hlater⟩ := Bool.and_eq_true_iff.1 hitems
      rw [canonicalItems?, canonical?_of_alike hfirst hother,
        canonicalItems?_of_alike hlater hrest]
      rfl

theorem canonicalMembers?_of_alike : ∀ {members row : List (String × Json)},
    areCanonicalMembers members = true → AlikeMembers members row →
      canonicalMembers? row = some members
  | [], _, _, h => by
      obtain rfl := h
      rfl
  | (name, value) :: rest, _, hmembers, h => by
      obtain ⟨other, more, rfl, hother, hrest⟩ := h
      obtain ⟨hfirst, habove, hlater⟩ := areCanonicalMembers_cons hmembers
      rw [canonicalMembers?, canonical?_of_alike hfirst hother,
        canonicalMembers?_of_alike hlater hrest]
      exact congrArg some (insertAbsent_of_lt habove value)

end

/-! ## Reading values that are alike -/

/-- A reader finds something in a value, and in all values that are alike. -/
def Reads {α : Type} (decode : Json → Option α) (value : Json) (a : α) : Prop :=
  ∀ other, value.Alike other → decode other = some a

section Shapes

variable {α β : Type} {decode : Json → Option α} {encode : α → Json}

theorem Reads.self {value : Json} {a : α} (h : Reads decode value a) : decode value = some a :=
  h value (.refl value)

/-- Where no two things are written in the same way there is a reader. -/
theorem Reads.eq_of_alike {value other : Json} {a b : α} (h : Reads decode value a)
    (h' : Reads decode other b) (halike : value.Alike other) : a = b :=
  Option.some.inj ((h other halike).symm.trans h'.self)

theorem Reads.map {value : Json} {a : α} (h : Reads decode value a) (f : α → β) :
    Reads (fun json => (decode json).map f) value (f a) := by
  intro other halike
  exact congrArg (Option.map f) (h other halike)

theorem reads_nat (n : Nat) : Reads asNat? (ofNat n) n := by
  intro other h
  simp only [ofNat, Alike] at h
  rw [h]
  simp [asNat?]

theorem reads_float {x : Float} (hfinite : x.isFinite = true) : Reads asFloat? (ofFloat x) x := by
  intro other h
  rw [ofFloat, if_pos hfinite] at h
  simp only [Alike] at h
  rw [h]
  rfl

theorem reads_bool (b : Bool) : Reads asBool? (.bool b) b := by
  intro other h
  simp only [Alike] at h
  rw [h]
  rfl

theorem reads_string (s : String) : Reads asString? (.string s) s := by
  intro other h
  simp only [Alike] at h
  rw [h]
  rfl

theorem reads_choice {named : String → Option α} {name : String} {a : α} (rule : ChoiceRule)
    (h : named name = some a) : Reads (choice? rule named) (.string name) a := by
  intro other halike
  simp only [Alike] at halike
  rw [halike]
  exact h

theorem reads_list {items : List α} (h : ∀ a ∈ items, Reads decode (encode a) a) :
    Reads (asList? decode) (ofList encode items) items := by
  intro other halike
  obtain ⟨others, rfl, hothers⟩ := alike_array_iff.1 halike
  clear halike
  rw [asList?]
  induction items generalizing others with
  | nil =>
      obtain rfl := hothers
      rfl
  | cons a rest ih =>
      obtain ⟨first, more, rfl, hfirst, hmore⟩ := hothers
      obtain ⟨ha, hrest⟩ := List.forall_mem_cons.1 h
      rw [List.mapM_cons, ha first hfirst, ih hrest more hmore]
      rfl

theorem reads_pair {first second : Json} {a b : α} (ha : Reads decode first a)
    (hb : Reads decode second b) : Reads (asPair? decode) (.array [first, second]) (a, b) := by
  intro other halike
  obtain ⟨_, rfl, first', _, rfl, hfirst, second', _, rfl, hsecond, rfl⟩ := alike_array_iff.1 halike
  rw [asPair?, ha first' hfirst, hb second' hsecond]
  rfl

theorem reads_option {o : Option α} (hnull : ∀ a, encode a ≠ .null)
    (h : ∀ a, o = some a → Reads decode (encode a) a) :
    Reads (asOption? decode) (ofOption encode o) o := by
  intro other halike
  cases o with
  | none =>
      simp only [ofOption, Alike] at halike
      rw [halike]
      rfl
  | some a =>
      have hother : other ≠ .null := by
        rintro rfl
        refine hnull a ?_
        have halike' : (encode a).Alike .null := halike
        cases hvalue : encode a <;> simp_all [Alike]
      have hread := h a rfl other halike
      unfold asOption?
      split
      · exact absurd rfl hother
      · rw [hread]
        rfl

end Shapes

/-! ## Records -/

/-- Under each name of a record there stands a value that is alike. -/
def Holds (members others : List (String × Json)) : Prop :=
  ∀ name value, (name, value) ∈ members → ∃ other, others.lookup name = some other ∧
    value.Alike other

section Records

variable {α β : Type} {decode : Json → Option α} {members others : List (String × Json)}

theorem lookup_of_mem {name : String} {value : Json} (hnames : (others.map (·.1)).Nodup)
    (h : (name, value) ∈ others) : others.lookup name = some value := by
  induction others with
  | nil => cases h
  | cons member rest ih =>
      obtain ⟨hnew, hrest⟩ := List.nodup_cons.1 hnames
      rcases List.mem_cons.1 h with rfl | hmem
      · exact List.lookup_cons_self
      · have hne : name ≠ member.1 := by
          rintro rfl
          exact hnew (List.mem_map.2 ⟨_, hmem, rfl⟩)
        rw [List.lookup_cons, beq_eq_false_iff_ne.2 hne]
        exact ih hrest hmem

theorem lookup_eq_none {name : String} (h : name ∉ others.map (·.1)) : others.lookup name = none := by
  rw [List.lookup_eq_none_iff]
  intro member hmem
  have hne : name ≠ member.1 := fun heq => h (heq ▸ List.mem_map_of_mem hmem)
  simpa using hne

/-- A record without repeated names is read from its members, in whatever order they stand, and from
    the names that it does not have. -/
theorem Reads.record_lacking {fields : List Field} {read : List (String × Json) → Option α} {a : α}
    (hnames : (members.map (·.1)).Nodup)
    (h : ∀ others, Holds members others →
      (∀ name, name ∉ members.map (·.1) → others.lookup name = none) → read others = some a) :
    Reads (fun json => json.members? fields >>= read) (.object members) a := by
  intro other halike
  obtain ⟨row, others, rfl, hperm, hrow⟩ := alike_object_iff.1 halike
  have hothers : (others.map (·.1)).Nodup := by
    rw [(hperm.map _).nodup_iff, hrow.names]
    exact hnames
  have hholds : Holds members others := by
    intro name value hmem
    obtain ⟨found, hfound, halike⟩ := hrow.exists_of_mem hmem
    exact ⟨found, lookup_of_mem hothers (hperm.mem_iff.2 hfound), halike⟩
  have hlacks : ∀ name, name ∉ members.map (·.1) → others.lookup name = none := by
    intro name hname
    refine lookup_eq_none fun hmem => hname ?_
    rwa [← hrow.names, ← (hperm.map _).mem_iff]
  have honce : ∀ name, countName name others ≤ 1 := by
    intro name
    have hle := List.nodup_iff_count.1 hothers name
    rwa [List.count, List.countP_map] at hle
  have hmembers : (Json.object others).members? fields = some others := by
    rw [members?, if_neg]
    simp [Nat.not_lt.2 (honce _)]
  show (Json.object others).members? fields >>= read = some a
  rw [hmembers]
  exact h others hholds hlacks

/-- A record without repeated names is read from its members, in whatever order they stand. -/
theorem Reads.record {fields : List Field} {read : List (String × Json) → Option α} {a : α}
    (hnames : (members.map (·.1)).Nodup)
    (h : ∀ others, Holds members others → read others = some a) :
    Reads (fun json => json.members? fields >>= read) (.object members) a :=
  .record_lacking hnames fun others hholds _ => h others hholds

theorem Holds.required {name : String} {value : Json} {a : α} {next : α → Option β} {b : β}
    (h : Holds members others) (hreads : Reads decode value a) (hmem : (name, value) ∈ members)
    (hnext : next a = some b) : required? name decode others >>= next = some b := by
  obtain ⟨other, hlookup, halike⟩ := h name value hmem
  rw [required?, hlookup, Option.bind_some, hreads other halike]
  exact hnext

theorem Holds.optional {name : String} {value : Json} {o : Option α} {next : Option α → Option β}
    {b : β} (h : Holds members others) (hreads : Reads (asOption? decode) value o)
    (hmem : (name, value) ∈ members) (hnext : next o = some b) :
    optional? name decode others >>= next = some b := by
  obtain ⟨other, hlookup, halike⟩ := h name value hmem
  rw [optional?, hlookup]
  show asOption? decode other >>= next = some b
  rw [hreads other halike]
  exact hnext

theorem Holds.defaulted_self {name : String} {value : Json} {a default : α}
    (h : Holds members others) (hreads : Reads decode value a) (hmem : (name, value) ∈ members) :
    defaulted? name decode default others = some a := by
  obtain ⟨other, hlookup, halike⟩ := h name value hmem
  rw [defaulted?, hlookup]
  exact hreads other halike

theorem Holds.defaulted {name : String} {value : Json} {a default : α} {next : α → Option β}
    {b : β} (h : Holds members others) (hreads : Reads decode value a)
    (hmem : (name, value) ∈ members) (hnext : next a = some b) :
    defaulted? name decode default others >>= next = some b := by
  rw [h.defaulted_self hreads hmem]
  exact hnext

end Records

/-! ## Tagged records -/

section Tags

variable {α : Type} {name : String} {value : Json} {members : List (String × Json)}

/-- A member that is the only one of its name is found in whatever place it stands, and what is left
    is alike without it. -/
theorem Alike.take {other : Json} (h : (Json.object ((name, value) :: members)).Alike other)
    (hnew : name ∉ members.map (·.1)) :
    ∃ others value', other = .object others ∧ value.Alike value' ∧
      others.filter (·.1 == name) = [(name, value')] ∧
      (Json.object members).Alike (.object (others.filter (·.1 != name))) := by
  obtain ⟨row, others, rfl, hperm, value', more, rfl, hvalue, hmore⟩ := alike_object_iff.1 h
  have hother : ∀ m ∈ more, m.1 ≠ name := by
    rintro m hm rfl
    exact hnew (hmore.names ▸ List.mem_map_of_mem hm)
  refine ⟨others, value', rfl, hvalue, ?_, alike_object_iff.2 ⟨more, _, rfl, ?_, hmore⟩⟩
  · have hnone : more.filter (·.1 == name) = [] :=
      List.filter_eq_nil_iff.2 fun m hm => by simpa using hother m hm
    have hfound := hperm.filter (·.1 == name)
    rw [List.filter_cons_of_pos (by simp), hnone] at hfound
    exact List.perm_singleton.1 hfound
  · have hall : more.filter (·.1 != name) = more :=
      List.filter_eq_self.2 fun m hm => by simpa using hother m hm
    have hrest := hperm.filter (·.1 != name)
    rwa [List.filter_cons_of_neg (by simp), hall] at hrest

/-- A tagged record without repeated names is read by its tag, in whatever place the tag stands. -/
theorem Reads.tagged {readTag : Json → Option String} {tag : String}
    {read : String × Json → Option α} {a : α} (htag : readTag (.string tag) = some tag)
    (hnew : name ∉ members.map (·.1)) (hreadable : areReadableMembers members = true)
    (h : Reads (fun body => read (tag, body)) (.object members) a) :
    Reads (fun json => json.taggedBy? readTag name >>= read) (.tagged name tag members) a := by
  intro other halike
  obtain ⟨others, value', rfl, hvalue, hfound, hrest⟩ := halike.take hnew
  have hreadableOthers : areReadableMembers others = true := by
    refine halike.isReadable ?_
    rw [Json.tagged, isReadable, areReadableMembers, hreadable]
    rfl
  have hvalue' : value' = .string tag := by simpa only [Alike] using hvalue
  have htaken : (Json.object others).taggedBy? readTag name
      = some (tag, .object (others.filter (·.1 != name))) := by
    rw [taggedBy?, if_pos hreadableOthers, hfound]
    show (readTag value').map _ = _
    rw [hvalue', htag]
    rfl
  show (Json.object others).taggedBy? readTag name >>= read = some a
  rw [htaken]
  exact h _ hrest

theorem reads_nothing {a : α} :
    Reads (fun body => if body.hasNoFields then some a else none) (.object members) a := by
  intro other halike
  obtain ⟨row, others, rfl, -, -⟩ := alike_object_iff.1 halike
  rfl

end Tags

end Json

end SpriteStage

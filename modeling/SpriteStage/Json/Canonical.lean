import SpriteStage.Json.Basic
set_option autoImplicit false

/-! # Canonical JSON values

Where the order and the repetition of names carry no meaning, a value is kept in canonical form:
names ascending by code point and each once, no part unreadable, every number finite.
`Json.canonical?` computes it, a repeated name keeping its last value, and
`isCanonical_of_canonical?` says that its results have that form. -/

namespace SpriteStage

namespace Json

mutual

/-- Whether a value is in canonical form. -/
def isCanonical : Json → Bool
  | .number (.float x) => x.isFinite
  | .array items => areCanonical items
  | .object members => areCanonicalMembers members
  | .unreadable => false
  | _ => true

/-- `isCanonical` for every item of a list. -/
def areCanonical : List Json → Bool
  | [] => true
  | item :: rest => item.isCanonical && areCanonical rest

/-- Canonical values under strictly ascending names. -/
def areCanonicalMembers : List (String × Json) → Bool
  | [] => true
  | (name, value) :: rest =>
    value.isCanonical && rest.all (fun m => decide (name < m.1)) && areCanonicalMembers rest

end

/-- Put a member in its place among ascending names, unless the name is there already. -/
def insertAbsent (name : String) (value : Json) : List (String × Json) → List (String × Json)
  | [] => [(name, value)]
  | (other, kept) :: rest =>
    if name = other then (other, kept) :: rest
    else if name < other then (name, value) :: (other, kept) :: rest
    else (other, kept) :: insertAbsent name value rest

mutual

/-- The canonical form of a value, if it has one. -/
def canonical? : Json → Option Json
  | .null => some .null
  | .bool b => some (.bool b)
  | .number (.int n) => some (.number (.int n))
  | .number (.float x) => if x.isFinite then some (.number (.float x)) else none
  | .string s => some (.string s)
  | .array items => do
    let items ← canonicalItems? items
    some (.array items)
  | .object members => do
    let members ← canonicalMembers? members
    some (.object members)
  | .unreadable => none

/-- The canonical forms of the items of a list. -/
def canonicalItems? : List Json → Option (List Json)
  | [] => some []
  | item :: rest => do
    let item ← item.canonical?
    let rest ← canonicalItems? rest
    some (item :: rest)

/-- Members in canonical order. Those further back are placed first, so that they win. -/
def canonicalMembers? : List (String × Json) → Option (List (String × Json))
  | [] => some []
  | (name, value) :: rest => do
    let value ← value.canonical?
    let rest ← canonicalMembers? rest
    some (insertAbsent name value rest)

end

/-! ## Canonical forms are canonical -/

theorem mem_insertAbsent {name : String} {value : Json} {members : List (String × Json)}
    {m : String × Json} (h : m ∈ insertAbsent name value members) :
    m = (name, value) ∨ m ∈ members := by
  induction members with
  | nil => simpa [insertAbsent] using h
  | cons head rest ih =>
    obtain ⟨other, kept⟩ := head
    unfold insertAbsent at h
    split at h
    · exact .inr h
    · split at h
      · exact List.mem_cons.1 h
      · rcases List.mem_cons.1 h with h | h
        · exact .inr (by simp [h])
        · rcases ih h with h | h
          · exact .inl h
          · exact .inr (List.mem_cons_of_mem _ h)

theorem areCanonicalMembers_insertAbsent {name : String} {value : Json}
    {members : List (String × Json)} (hv : value.isCanonical = true)
    (hm : areCanonicalMembers members = true) :
    areCanonicalMembers (insertAbsent name value members) = true := by
  induction members with
  | nil => simp [insertAbsent, areCanonicalMembers, hv]
  | cons head rest ih =>
    obtain ⟨other, kept⟩ := head
    have parts := hm
    simp only [areCanonicalMembers, Bool.and_eq_true, List.all_eq_true, decide_eq_true_eq]
      at parts
    obtain ⟨⟨hkept, habove⟩, hrest⟩ := parts
    unfold insertAbsent
    split
    · exact hm
    · rename_i hne
      split
      · -- the new name comes first: it lies below `other`, which lies below the rest
        rename_i hlt
        rw [areCanonicalMembers]
        simp only [hv, hm, Bool.true_and, Bool.and_true, List.all_eq_true, decide_eq_true_eq]
        intro m hmem
        rcases List.mem_cons.1 hmem with h | h
        · simpa [h] using hlt
        · exact String.lt_trans hlt (habove m h)
      · -- the new name comes later: by trichotomy `other` lies below it
        rename_i hnlt
        have hlt : other < name := by
          refine Decidable.byContradiction fun hn => hne ?_
          exact String.le_antisymm (String.not_lt.1 hn) (String.not_lt.1 hnlt)
        rw [areCanonicalMembers]
        simp only [hkept, ih hrest, Bool.true_and, Bool.and_true, List.all_eq_true,
          decide_eq_true_eq]
        intro m hmem
        rcases mem_insertAbsent hmem with h | h
        · simpa [h] using hlt
        · exact habove m h

mutual

theorem isCanonical_of_canonical? :
    ∀ {v w : Json}, v.canonical? = some w → w.isCanonical = true
  | .null, w, h => by simp only [canonical?, Option.some.injEq] at h; subst h; rfl
  | .bool b, w, h => by simp only [canonical?, Option.some.injEq] at h; subst h; rfl
  | .number (.int n), w, h => by
    simp only [canonical?, Option.some.injEq] at h; subst h; rfl
  | .number (.float x), w, h => by
    simp only [canonical?] at h
    split at h
    · rename_i hx
      simp only [Option.some.injEq] at h
      subst h
      simpa [isCanonical] using hx
    · simp at h
  | .string s, w, h => by simp only [canonical?, Option.some.injEq] at h; subst h; rfl
  | .array items, w, h => by
    simp only [canonical?, Option.bind_eq_bind, Option.bind_eq_some_iff] at h
    obtain ⟨items', hi, hw⟩ := h
    simp only [Option.some.injEq] at hw
    subst hw
    simpa [isCanonical] using areCanonical_of_canonicalItems? hi
  | .object members, w, h => by
    simp only [canonical?, Option.bind_eq_bind, Option.bind_eq_some_iff] at h
    obtain ⟨members', hm, hw⟩ := h
    simp only [Option.some.injEq] at hw
    subst hw
    simpa [isCanonical] using areCanonicalMembers_of_canonicalMembers? hm
  | .unreadable, w, h => by simp [canonical?] at h

theorem areCanonical_of_canonicalItems? :
    ∀ {items out : List Json}, canonicalItems? items = some out → areCanonical out = true
  | [], out, h => by simp only [canonicalItems?, Option.some.injEq] at h; subst h; rfl
  | item :: rest, out, h => by
    simp only [canonicalItems?, Option.bind_eq_bind, Option.bind_eq_some_iff] at h
    obtain ⟨item', hi, rest', hr, ho⟩ := h
    simp only [Option.some.injEq] at ho
    subst ho
    simp [areCanonical, isCanonical_of_canonical? hi, areCanonical_of_canonicalItems? hr]

theorem areCanonicalMembers_of_canonicalMembers? :
    ∀ {members out : List (String × Json)}, canonicalMembers? members = some out →
      areCanonicalMembers out = true
  | [], out, h => by simp only [canonicalMembers?, Option.some.injEq] at h; subst h; rfl
  | (name, value) :: rest, out, h => by
    simp only [canonicalMembers?, Option.bind_eq_bind, Option.bind_eq_some_iff] at h
    obtain ⟨value', hv, rest', hr, ho⟩ := h
    simp only [Option.some.injEq] at ho
    subst ho
    exact areCanonicalMembers_insertAbsent (isCanonical_of_canonical? hv)
      (areCanonicalMembers_of_canonicalMembers? hr)

end

end Json

end SpriteStage

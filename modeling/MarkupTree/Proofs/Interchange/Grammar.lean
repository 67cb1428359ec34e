import MarkupTree.Proofs.Interchange.Load

/-!
# The values that are trees

`Value.IsTree` is the grammar of the interchange form, on values whose objects are maps: which
members a node has to have, and of which form. Loading succeeds on these values and on no others
(`ofJson_ok_iff`). What is not named in the grammar is not looked at: `Value.trim` drops it, and the
outcome is the same (`ofJson_trim`).
-/

namespace MarkupTree.Json.Value

open OrderedMap

/-! ## The grammar -/

/-- A value without parts. -/
def IsAtom : Value → Prop
  | .null | .bool _ | .number _ | .string _ => True
  | .array _ | .object _ => False

/-- The values that a property may have. -/
inductive IsProperty : Value → Prop
  | null : IsProperty .null
  | bool (b : Bool) : IsProperty (.bool b)
  | number (n : Number) : IsProperty (.number n)
  | string (s : String) : IsProperty (.string s)
  | array {items : List Value} : (∀ v ∈ items, v.IsAtom) → IsProperty (.array items)
  | object {members : List (String × Value)} : (∀ e ∈ members, IsProperty e.2) →
    IsProperty (.object members)

/-- There is no such member, or it is `null`. -/
def Absent (member : Option Value) : Prop := member = none ∨ member = some .null

/-- The values that are trees. -/
inductive IsTree : Value → Prop
  | text {members : List (String × Value)} :
    find? "type" members = some (.string "TEXT") → IsTree (.object members)
  | element {members : List (String × Value)} :
    find? "type" members = some (.string "ELEMENT") →
    (Absent (find? "tag" members) ∨ ∃ s, find? "tag" members = some (.string s)) →
    (Absent (find? "properties" members) ∨
      ∃ entries, find? "properties" members = some (.object entries) ∧
        ∀ e ∈ entries, e.2.IsProperty) →
    (Absent (find? "children" members) ∨ ∃ items, find? "children" members = some (.array items)) →
    (∀ items, find? "children" members = some (.array items) → ∀ v ∈ items, IsTree v) →
    IsTree (.object members)

end MarkupTree.Json.Value

namespace MarkupTree

open Json OrderedMap

/-! ## Properties -/

theorem Scalar.ofJson?_isSome_iff (v : Value) : (ofJson? v.blankNulls).isSome ↔ v.IsAtom := by
  cases v with
  | number n => cases n <;> simp [Value.blankNulls, ofJson?_eq, Value.IsAtom]
  | _ => simp [Value.blankNulls, ofJson?_eq, Value.IsAtom]

theorem PropertyValue.ofJson?_isSome_iff (v : Value) :
    (ofJson? v.blankNulls).isSome ↔ v.IsProperty := by
  induction v using Value.induction with
  | null => exact ⟨fun _ => .null, fun _ => rfl⟩
  | bool b => exact ⟨fun _ => .bool b, fun _ => rfl⟩
  | number n =>
    refine ⟨fun _ => .number n, fun _ => ?_⟩
    rw [Value.blankNulls, ofJson?, AttributeValue.ofJson?, Option.isSome_map, Option.isSome_map]
    · exact (Scalar.ofJson?_isSome_iff (.number n)).2 trivial
    · intro _ h
      cases h
  | string s => exact ⟨fun _ => .string s, fun _ => rfl⟩
  | array items =>
    have h : (ofJson? (Value.array items).blankNulls).isSome ↔ ∀ v ∈ items, v.IsAtom := by
      rw [Value.blankNulls_array, ofJson?, AttributeValue.ofJson?, Option.isSome_map,
        Option.isSome_map, mapM_isSome_iff, List.forall_mem_map]
      simp only [Scalar.ofJson?_isSome_iff]
    rw [h]
    exact ⟨.array, fun h => by cases h; assumption⟩
  | object ms ih =>
    have h : (ofJson? (Value.object ms).blankNulls).isSome ↔ ∀ e ∈ ms, e.2.IsProperty := by
      rw [Value.blankNulls_object, ofJson?, Option.isSome_map, Properties.ofMembers?_isSome_iff,
        List.forall_mem_map]
      exact forall₂_congr ih
    rw [h]
    exact ⟨.object, fun h => by cases h; assumption⟩

theorem Properties.ofJson_object_ok_iff {ms : List (String × Value)} :
    (∃ p, ofJson (.object ms) = .ok p) ↔ ∀ e ∈ ms, (PropertyValue.ofJson? e.2).isSome := by
  rw [← @ofMembers?_isSome_iff [], ofJson]
  cases ofMembers? [] ms <;> simp

namespace Node

/-! ## The members of an element -/

theorem loadTag_ok_iff {tag : Option Value} :
    (∃ t, loadTag tag = .ok t) ↔ Value.Absent tag ∨ ∃ s, tag = some (.string s) := by
  match tag with
  | none => simp [loadTag, Value.Absent]
  | some v => cases v <;> simp [loadTag, Value.Absent]

theorem loadProperties_some_ok_iff {v : Value} (h : v ≠ .null) :
    (∃ p, loadProperties (some v) = .ok p) ↔ ∃ p, Properties.ofJson v.blankNulls = .ok p := by
  rw [loadProperties]
  · cases Properties.ofJson v.blankNulls <;> simp
  · exact h

theorem loadProperties_ok_iff {properties : Option Value} :
    (∃ p, loadProperties properties = .ok p) ↔ Value.Absent properties ∨
      ∃ entries, properties = some (.object entries) ∧ ∀ e ∈ entries, e.2.IsProperty := by
  match properties with
  | none => simp [loadProperties, Value.Absent]
  | some .null => simp [loadProperties, Value.Absent]
  | some (.bool _) | some (.number _) | some (.string _) | some (.array _) =>
    simp [loadProperties, Value.Absent, Value.blankNulls, Properties.ofJson]
  | some (.object ms) =>
    rw [loadProperties_some_ok_iff Value.noConfusion, Value.blankNulls_object,
      Properties.ofJson_object_ok_iff, List.forall_mem_map]
    simp [PropertyValue.ofJson?_isSome_iff, Value.Absent]

theorem ofJsonFrom_isOk_iff {i : Nat} {vs : List Value} :
    (∃ ns, ofJsonFrom i vs = .ok ns) ↔ ∀ v ∈ vs, ∃ n, ofJson v = .ok n := by
  simp only [ofJsonFrom_ok_iff]
  induction vs with
  | nil => simp
  | cons v vs ih =>
    rw [List.forall_mem_cons, ← ih]
    constructor
    · rintro ⟨_, _ | ⟨hn, hns⟩⟩
      exact ⟨⟨_, hn⟩, _, hns⟩
    · rintro ⟨⟨n, hn⟩, ns, hns⟩
      exact ⟨n :: ns, .cons hn hns⟩

theorem loadChildren_ok_iff {children : Option Value} :
    (∃ cs, loadChildren children = .ok cs) ↔
      (Value.Absent children ∨ ∃ items, children = some (.array items)) ∧
      ∀ items, children = some (.array items) → ∀ v ∈ items, ∃ n, ofJson v = .ok n := by
  match children with
  | none => simp [loadChildren, Value.Absent]
  | some .null | some (.bool _) | some (.number _) | some (.string _) | some (.object _) =>
    simp [loadChildren, childrenOfJson, Value.Absent]
  | some (.array items) =>
    have h := @ofJsonFrom_isOk_iff 0 items
    rw [loadChildren, childrenOfJson_array]
    cases hns : ofJsonFrom 0 items <;> simpa [hns, Value.Absent] using h

theorem loadElement_isOk_iff {tag properties children : Option Value} :
    (∃ n, loadElement tag properties children = .ok n) ↔ (∃ t, loadTag tag = .ok t) ∧
      (∃ p, loadProperties properties = .ok p) ∧ ∃ cs, loadChildren children = .ok cs := by
  simp only [loadElement_ok_iff]
  constructor
  · rintro ⟨n, t, p, cs, ht, hp, hcs, -⟩
    exact ⟨⟨t, ht⟩, ⟨p, hp⟩, cs, hcs⟩
  · rintro ⟨⟨t, ht⟩, ⟨p, hp⟩, cs, hcs⟩
    exact ⟨_, t, p, cs, ht, hp, hcs, rfl⟩

/-! ## Trees -/

/-- The element that an object may be is loaded when its tag, its properties and all its children
are. -/
theorem loadElement_isTree_iff {ms : List (String × Value)}
    (htype : find? "type" ms = some (.string "ELEMENT"))
    (ih : ∀ items, find? "children" ms = some (.array items) →
      ∀ v ∈ items, (∃ n, ofJson v = .ok n) ↔ v.IsTree) :
    (∃ n, loadElement (find? "tag" ms) (find? "properties" ms) (find? "children" ms) = .ok n) ↔
      (Value.object ms).IsTree := by
  rw [loadElement_isOk_iff, loadTag_ok_iff, loadProperties_ok_iff, loadChildren_ok_iff]
  constructor
  · rintro ⟨htag, hp, hc, hitems⟩
    exact .element htype htag hp hc fun items h v hv => (ih items h v hv).1 (hitems items h v hv)
  · intro h
    cases h with
    | text h => simp [htype] at h
    | element _ htag hp hc hitems =>
      exact ⟨htag, hp, hc, fun items h v hv => (ih items h v hv).2 (hitems items h v hv)⟩

/-- **Loading succeeds on the trees and on nothing else.** -/
theorem ofJson_ok_iff (v : Value) : (∃ n, ofJson v = .ok n) ↔ v.IsTree := by
  induction v using Value.nodeInduction with
  | object ms ih =>
    have herror : ∀ m, ¬∃ n, (Except.error m : Except Malformed Node) = .ok n := by
      rintro m ⟨n, h⟩
      cases h
    have hnot : find? "type" ms ≠ some (.string "ELEMENT") →
        find? "type" ms ≠ some (.string "TEXT") → ¬(Value.object ms).IsTree := by
      intro he ht h
      cases h with
      | text h => exact ht h
      | element h => exact he h
    rw [ofJson_object]
    cases htype : find? "type" ms with
    | none => exact iff_of_false (herror _) (hnot (by simp [htype]) (by simp [htype]))
    | some v =>
      cases v with
      | string type =>
        simp only
        split
        · rename_i he
          exact loadElement_isTree_iff (by rw [htype, he]; rfl) ih
        · rename_i he
          split
          · rename_i ht
            exact iff_of_true ⟨_, rfl⟩ (.text (by rw [htype, ht]; rfl))
          · rename_i ht
            refine iff_of_false (herror _) (hnot ?_ ?_)
            · rw [htype]
              intro h
              exact he (Value.string.inj (Option.some.inj h))
            · rw [htype]
              intro h
              exact ht (Value.string.inj (Option.some.inj h))
      | _ => exact iff_of_false (herror _) (hnot (by simp [htype]) (by simp [htype]))
  | other v hv =>
    have h : ofJson v = .error (.here (.notObject v.kind)) := by
      cases v with
      | object ms => exact absurd rfl (hv ms)
      | _ => rfl
    refine iff_of_false ?_ ?_
    · rintro ⟨n, hn⟩
      cases h.symm.trans hn
    · intro htree
      cases htree <;> exact absurd rfl (hv _)

end Node

end MarkupTree

import MarkupTree.Proofs.Interchange.Canon
import MarkupTree.Proofs.Json.Measure
import Mathlib.Data.List.Nodup

/-!
# Trees that JSON is faithful to

Two things are lost in JSON: a double may come back as another one, or as an empty text, and of keys
with the same name only one comes back. In a tree without doubles (`Node.NoFloat`) the saved values
are what they are loaded as, all numbers in them integers (`blankNulls_toJson_of_noFloat`,
`integral_encode`); in a mapping with distinct names (`PropertyValue.DistinctNames`) every entry
comes back at its place (`canon_of_distinct`).
-/

namespace MarkupTree

open Json OrderedMap

/-! ## Conditions -/

/-- The scalars that an attribute value is made of. -/
def AttributeValue.scalars : AttributeValue → List Scalar
  | .list items => items
  | .scalar s => [s]

/-- Whether a scalar is a double. -/
def Scalar.isFloat : Scalar → Bool
  | .float _ => true
  | _ => false

/-- No scalar in the value is a double, whatever mappings it lies in. -/
inductive PropertyValue.NoFloat : PropertyValue → Prop
  | attr {a : AttributeValue} : (∀ s ∈ a.scalars, s.isFloat = false) → NoFloat (.attr a)
  | nested {p : Properties} : (∀ e ∈ p, NoFloat e.2) → NoFloat (.nested p)

/-- In every mapping that the value is or holds, the keys make pairwise distinct names. -/
inductive PropertyValue.DistinctNames : PropertyValue → Prop
  | attr (a : AttributeValue) : DistinctNames (.attr a)
  | nested {p : Properties} : (p.map fun e => e.1.flat).Nodup → (∀ e ∈ p, DistinctNames e.2) →
    DistinctNames (.nested p)

/-- No scalar in the tree is a double. -/
def Node.NoFloat (n : Node) : Prop := n.Every fun p => (PropertyValue.nested p).NoFloat

/-- In every mapping in the tree, the keys make pairwise distinct names. -/
def Node.DistinctNames (n : Node) : Prop := n.Every fun p => (PropertyValue.nested p).DistinctNames

/-! ## Scalars -/

theorem Json.Number.isInteger_ofInt64 (n : Int64) : (ofInt64 n).IsInteger := by
  rw [ofInt64]
  split
  · assumption
  · trivial

namespace Scalar

variable {s : Scalar} (h : s.isFloat = false)
include h

theorem blankNulls_toJson_of_noFloat : s.toJson.blankNulls = s.toJson := by
  cases s with
  | float x => cases h
  | _ => rfl

theorem integral_toJson : s.toJson.Integral := by
  cases s with
  | bool b => exact .bool b
  | int n => exact .number (Number.isInteger_ofInt64 n)
  | uint n => exact .number trivial
  | float x => cases h
  | str s => exact .string s
  | symbol s => exact .string s

theorem text_canon : s.canon.text = s.text := by
  cases s with
  | uint n =>
    rw [canon]
    split
    · rename_i hn
      rw [text, text, Int64.toInt_ofNat_of_lt (by omega), Int.toString_eq_repr]
      rfl
    · rfl
  | float x => cases h
  | _ => rfl

end Scalar

/-! ## Attribute values -/

namespace AttributeValue

variable {a : AttributeValue} (h : ∀ s ∈ a.scalars, s.isFloat = false)
include h

theorem blankNulls_toJson_of_noFloat : a.toJson.blankNulls = a.toJson := by
  cases a with
  | list items =>
    rw [toJson, Value.blankNulls_array, List.map_map]
    refine congrArg Value.array (List.map_congr_left fun s hs => ?_)
    exact Scalar.blankNulls_toJson_of_noFloat (h s hs)
  | scalar s => exact Scalar.blankNulls_toJson_of_noFloat (h s List.mem_cons_self)

theorem integral_toJson : a.toJson.Integral := by
  cases a with
  | list items =>
    rw [toJson]
    exact .array (List.forall_mem_map.2 fun s hs => Scalar.integral_toJson (h s hs))
  | scalar s => exact Scalar.integral_toJson (h s List.mem_cons_self)

theorem parts_canon : a.canon.parts = a.parts := by
  cases a with
  | list items =>
    rw [canon, parts, parts, List.map_map]
    exact List.map_congr_left fun s hs => Scalar.text_canon (h s hs)
  | scalar s => exact congrArg ([·]) (Scalar.text_canon (h s List.mem_cons_self))

end AttributeValue

/-! ## Property values -/

namespace PropertyValue

theorem toJson_nested (p : Properties) : (nested p).toJson = Properties.toJson p := rfl

theorem blankNulls_toJson_of_noFloat {v : PropertyValue} (h : v.NoFloat) :
    v.toJson.blankNulls = v.toJson := by
  induction h with
  | attr ha => exact AttributeValue.blankNulls_toJson_of_noFloat ha
  | nested _ ih =>
    rw [toJson, Properties.toMembers_eq, Value.blankNulls_object, List.map_map]
    exact congrArg Value.object (List.map_congr_left fun e he => Prod.ext rfl (ih e he))

theorem integral_toJson {v : PropertyValue} (h : v.NoFloat) : v.toJson.Integral := by
  induction h with
  | attr ha => exact AttributeValue.integral_toJson ha
  | nested _ ih =>
    simpa [toJson] using .object (List.forall_mem_map.2 ih)

theorem collapse_toJson_of_distinct {v : PropertyValue} (h : v.DistinctNames) :
    v.toJson.collapse = v.toJson := by
  induction h with
  | attr a => exact a.collapse_toJson
  | nested hnames _ ih =>
    rw [toJson, Properties.toMembers_eq, Value.collapse_object_eq_self_iff]
    refine ⟨?_, List.forall_mem_map.2 ih⟩
    rwa [keys_map, keys, List.map_map]

end PropertyValue

theorem Properties.canon_of_distinct {p : Properties} (h : (p.map fun e => e.1.flat).Nodup) :
    Properties.canon p = canonEntries p := by
  refine ofEntries_of_nodup ?_
  rw [canonEntries_eq, keys_map, ← List.map_map]
  have hkeys : ((keys p).map PropertyKey.flat).Nodup := by rwa [keys, List.map_map]
  exact hkeys.map name_injective

/-! ## Trees -/

theorem Node.every_elementMembers {P : Number → Prop} {tag : String} {p c : Option Value}
    (hp : ∀ v ∈ p, v.Every P) (hc : ∀ v ∈ c, v.Every P) :
    (Value.object (elementMembers tag p c)).Every P := by
  refine .object fun e he => ?_
  simp only [elementMembers, List.mem_cons, List.mem_append, Option.mem_toList,
    Option.map_eq_some_iff] at he
  rcases he with rfl | rfl | ⟨v, hv, rfl⟩ | ⟨v, hv, rfl⟩
  · exact .string _
  · exact .string _
  · exact hp v hv
  · exact hc v hv

/-- What holds of the numbers of all saved mappings in a tree holds of those of the saved tree. -/
theorem Node.every_encode {P : Number → Prop} {n : Node}
    (h : n.Every fun p => (Properties.toJson p).Every P) : n.encode.Every P := by
  have hproperties : ∀ {p : Option Properties}, (∀ q ∈ p, (Properties.toJson q).Every P) →
      ∀ v ∈ p.map Properties.toJson, v.Every P := by
    intro p hp v hv
    obtain ⟨q, hq, rfl⟩ := Option.map_eq_some_iff.1 hv
    exact hp q hq
  induction h with
  | text s => exact .object (by simpa using ⟨.string _, .string _⟩)
  | bare hp =>
    rw [encode_bare]
    exact every_elementMembers (hproperties hp) nofun
  | parent hp _ ih =>
    rw [encode_parent]
    refine every_elementMembers (hproperties hp) ?_
    rintro v ⟨⟩
    exact .array (List.forall_mem_map.2 ih)

theorem Node.integral_encode {n : Node} (h : n.NoFloat) : n.encode.Integral :=
  every_encode (h.imp fun _ hp => PropertyValue.integral_toJson hp)

end MarkupTree

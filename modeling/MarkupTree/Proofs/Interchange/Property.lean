import MarkupTree.Interchange.Property
import MarkupTree.Proofs.OrderedMap

/-!
# Reading mappings

A mapping is read when the value of every member is (`ofMembers?_isSome_iff`), and then the values
are set one by one under the names of the members (`ofMembers?_map`, `ofMembers?_eq_some`). A value
that is no object is read as an attribute value, and one without parts as a scalar.
-/

namespace MarkupTree

open Json OrderedMap

/-! ## Values without members -/

theorem AttributeValue.ofJson?_of_scalar {v : Value} {s : Scalar} (h : Scalar.ofJson? v = some s) :
    ofJson? v = some (.scalar s) := by
  cases v with
  | null | array | object => cases h
  | bool | number | string => simp [ofJson?, h]

theorem PropertyValue.ofJson?_of_attribute {v : Value} {a : AttributeValue}
    (h : AttributeValue.ofJson? v = some a) : ofJson? v = some (.attr a) := by
  cases v with
  | null | object => cases h
  | bool | number | string | array => rw [ofJson?, h]; rfl

/-! ## Members -/

theorem name_injective : Function.Injective PropertyKey.name := fun _ _ h => PropertyKey.name.inj h

theorem mapM_isSome_iff {α β : Type} {f : α → Option β} {l : List α} :
    (l.mapM f).isSome ↔ ∀ a ∈ l, (f a).isSome := by
  induction l with
  | nil => simp
  | cons a l ih =>
    rw [List.mapM_cons, List.forall_mem_cons, ← ih]
    cases f a with
    | none => simp
    | some b => cases l.mapM f <;> simp

theorem Properties.ofMembers?_isSome_iff {out : Properties} {ms : List (String × Value)} :
    (ofMembers? out ms).isSome ↔ ∀ e ∈ ms, (PropertyValue.ofJson? e.2).isSome := by
  induction ms generalizing out with
  | nil => simp [ofMembers?]
  | cons e ms ih =>
    rw [ofMembers?, List.forall_mem_cons]
    cases PropertyValue.ofJson? e.2 with
    | none => simp
    | some w => simpa using ih

/-- A mapping is what a value is read as that is read as a nested mapping. -/
theorem Properties.ofJson_ok_iff {v : Value} {p : Properties} :
    ofJson v = .ok p ↔ PropertyValue.ofJson? v = some (.nested p) := by
  cases v with
  | object ms =>
    rw [ofJson, PropertyValue.ofJson?]
    cases ofMembers? [] ms <;> simp
  | null | bool | number | string | array => simp [ofJson, PropertyValue.ofJson?]

theorem Properties.ofMembers?_map {α : Type} {f : α → Value} {g : α → PropertyValue}
    {es : List (String × α)} (h : ∀ e ∈ es, PropertyValue.ofJson? (f e.2) = some (g e.2))
    (out : Properties) :
    ofMembers? out (es.map (Prod.map id f)) = some (extend out (es.map (Prod.map .name g))) := by
  induction es generalizing out with
  | nil => rfl
  | cons e es ih =>
    rw [List.map_cons, Prod.map, ofMembers?, h e List.mem_cons_self]
    exact ih (fun d hd => h d (List.mem_cons_of_mem _ hd)) _

/-- A mapping is made of values that were read, under the names of their members. -/
theorem Properties.ofMembers?_eq_some {out p : Properties} {ms : List (String × Value)}
    (h : ofMembers? out ms = some p) : ∃ g : Value → PropertyValue,
      (∀ e ∈ ms, PropertyValue.ofJson? e.2 = some (g e.2)) ∧
      p = extend out (ms.map (Prod.map .name g)) := by
  let g (v : Value) : PropertyValue := (PropertyValue.ofJson? v).getD (.nested [])
  have hg : ∀ e ∈ ms, PropertyValue.ofJson? e.2 = some (g e.2) := by
    intro e he
    obtain ⟨w, hw⟩ := Option.isSome_iff_exists.1
      (ofMembers?_isSome_iff.1 (Option.isSome_iff_exists.2 ⟨p, h⟩) e he)
    simp [g, hw]
  refine ⟨g, hg, ?_⟩
  have hmap := ofMembers?_map (f := id) hg out
  rw [Prod.map_id, List.map_id, h] at hmap
  exact Option.some.inj hmap

end MarkupTree

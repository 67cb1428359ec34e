import MarkupTree.Proofs.OrderedMap
import MarkupTree.Interchange.Load

/-!
# Induction over JSON values

`Value.induction` proves a statement about every value from the items of arrays and the values of
members. `collapse` and `blankNulls` are maps over items and members (`collapse_array`,
`collapse_object`, `blankNulls_array`, `blankNulls_object`), and what is made of maps already stays
as it is (`collapse_collapse`). What is said of a number is said of all numbers in a value by
`Value.Every`, and `Value.mapNumbers` puts others in their places.
-/

namespace MarkupTree

theorem sizeOf_snd_lt {α β : Type} [SizeOf α] [SizeOf β] (e : α × β) : sizeOf e.2 < sizeOf e := by
  obtain ⟨a, b⟩ := e
  change sizeOf b < sizeOf (a, b)
  rw [Prod.mk.sizeOf_spec]
  omega

namespace Json.Value

/-- A statement holds of every value that holds of an array when it holds of the items, of an object
when it holds of the values of the members, and of the values without parts. -/
theorem induction {P : Value → Prop} (null : P .null) (bool : ∀ b, P (.bool b))
    (number : ∀ n, P (.number n)) (string : ∀ s, P (.string s))
    (array : ∀ items, (∀ v ∈ items, P v) → P (.array items))
    (object : ∀ members, (∀ e ∈ members, P e.2) → P (.object members)) : ∀ v, P v
  | .null => null
  | .bool b => bool b
  | .number n => number n
  | .string s => string s
  | .array items => array items fun v hv =>
    have := List.sizeOf_lt_of_mem hv
    induction null bool number string array object v
  | .object members => object members fun e he =>
    have := List.sizeOf_lt_of_mem he
    have := sizeOf_snd_lt e
    induction null bool number string array object e.2

/-- A statement about nodes holds of every value that holds of an object when it holds of the items
of its member for children, and of all that is no object. -/
theorem nodeInduction {P : Value → Prop}
    (object : ∀ members, (∀ items, OrderedMap.find? "children" members = some (.array items) →
      ∀ v ∈ items, P v) → P (.object members))
    (other : ∀ v, (∀ members, v ≠ .object members) → P v) (v : Value) : P v := by
  -- A node is two steps away from its children, so the items are carried along.
  have key : P v ∧ ∀ items, v = .array items → ∀ w ∈ items, P w := by
    induction v using Value.induction with
    | null | bool | number | string => exact ⟨other _ nofun, nofun⟩
    | array items ih => exact ⟨other _ nofun, fun _ h w hw => (ih w (array.inj h ▸ hw)).1⟩
    | object ms ih =>
      refine ⟨object ms fun items hitems => ?_, nofun⟩
      exact (ih _ (OrderedMap.mem_of_find? hitems)).2 items rfl
  exact key.1

/-! ## Objects as maps -/

@[simp] theorem collapseAll_eq (vs : List Value) : collapseAll vs = vs.map collapse := by
  induction vs with
  | nil => rfl
  | cons v vs ih => rw [collapseAll, ih, List.map_cons]

theorem collapseMembers_eq (out : OrderedMap String Value) (ms : List (String × Value)) :
    collapseMembers out ms = OrderedMap.extend out (ms.map (Prod.map id collapse)) := by
  induction ms generalizing out with
  | nil => rfl
  | cons e ms ih => rw [collapseMembers, ih]; rfl

@[simp] theorem collapse_array (items : List Value) :
    (array items).collapse = array (items.map collapse) := by
  simp [collapse]

@[simp] theorem collapse_object (ms : List (String × Value)) :
    (object ms).collapse = object ((OrderedMap.ofEntries ms).map (Prod.map id collapse)) := by
  rw [collapse, collapseMembers_eq, ← OrderedMap.ofEntries_map Function.injective_id]
  rfl

theorem collapse_object_find? (ms : List (String × Value)) : ∃ ms',
    (object ms).collapse = object ms' ∧
      ∀ k, OrderedMap.find? k ms' = (OrderedMap.find? k ms.reverse).map collapse :=
  ⟨_, collapse_object ms, fun k => by rw [OrderedMap.find?_map, OrderedMap.find?_ofEntries]⟩

@[simp] theorem collapse_eq_string_iff {v : Value} {s : String} :
    v.collapse = string s ↔ v = string s := by
  cases v <;> simp [collapse]

/-- A value that is made of maps stays as it is. -/
@[simp] theorem collapse_collapse (v : Value) : v.collapse.collapse = v.collapse := by
  induction v using Value.induction with
  | null | bool | number | string => rfl
  | array items ih =>
    simp only [collapse_array, List.map_map, array.injEq]
    exact List.map_congr_left ih
  | object ms ih =>
    rw [collapse_object, collapse_object, OrderedMap.ofEntries_of_nodup, List.map_map]
    · refine congrArg object (List.map_congr_left fun e he => ?_)
      exact Prod.ext rfl (ih e (OrderedMap.mem_of_mem_ofEntries he))
    · simpa using OrderedMap.nodup_keys_ofEntries ms

theorem collapse_array_eq_self_iff {items : List Value} :
    (array items).collapse = array items ↔ ∀ v ∈ items, v.collapse = v := by
  rw [collapse_array, array.injEq]
  constructor
  · intro h v hv
    rw [← h] at hv
    obtain ⟨w, -, rfl⟩ := List.mem_map.1 hv
    exact collapse_collapse w
  · exact fun h => (List.map_congr_left h).trans (List.map_id items)

/-- An object is made of maps when it is one and the values of its members are. -/
theorem collapse_object_eq_self_iff {ms : List (String × Value)} :
    (object ms).collapse = object ms ↔
      (OrderedMap.keys ms).Nodup ∧ ∀ e ∈ ms, e.2.collapse = e.2 := by
  rw [collapse_object, object.injEq]
  constructor
  · intro h
    refine ⟨?_, fun e he => ?_⟩
    · rw [← h, OrderedMap.keys_map, List.map_id]
      exact OrderedMap.nodup_keys_ofEntries ms
    · rw [← h] at he
      obtain ⟨d, -, rfl⟩ := List.mem_map.1 he
      exact collapse_collapse d.2
  · rintro ⟨hn, h⟩
    rw [OrderedMap.ofEntries_of_nodup hn]
    have hms : ∀ e ∈ ms, Prod.map id collapse e = id e := fun e he => Prod.ext rfl (h e he)
    exact (List.map_congr_left hms).trans (List.map_id ms)

/-! ## Empty texts in place of `null` -/

@[simp] theorem blankNullsAll_eq (vs : List Value) : blankNullsAll vs = vs.map blankNulls := by
  induction vs with
  | nil => rfl
  | cons v vs ih => rw [blankNullsAll, ih, List.map_cons]

theorem blankNullMembers_eq (ms : List (String × Value)) :
    blankNullMembers ms = ms.map (Prod.map id blankNulls) := by
  induction ms with
  | nil => rfl
  | cons e ms ih => rw [blankNullMembers, ih]; rfl

@[simp] theorem blankNulls_array (items : List Value) :
    (array items).blankNulls = array (items.map blankNulls) := by
  simp [blankNulls]

@[simp] theorem blankNulls_object (ms : List (String × Value)) :
    (object ms).blankNulls = object (ms.map (Prod.map id blankNulls)) := by
  rw [blankNulls, blankNullMembers_eq]

/-! ## Numbers in a value -/

/-- Every number in the value satisfies `P`. -/
inductive Every (P : Number → Prop) : Value → Prop
  | null : Every P .null
  | bool (b : Bool) : Every P (.bool b)
  | number {n : Number} : P n → Every P (.number n)
  | string (s : String) : Every P (.string s)
  | array {items : List Value} : (∀ v ∈ items, Every P v) → Every P (.array items)
  | object {members : List (String × Value)} : (∀ e ∈ members, Every P e.2) →
    Every P (.object members)

theorem Every.imp {P Q : Number → Prop} (h : ∀ n, P n → Q n) {v : Value} (hv : v.Every P) :
    v.Every Q := by
  induction hv with
  | null => exact .null
  | bool b => exact .bool b
  | number hn => exact .number (h _ hn)
  | string s => exact .string s
  | array _ ih => exact .array ih
  | object _ ih => exact .object ih

mutual

/-- The value with `f n` for every number `n` in it. -/
def mapNumbers (f : Number → Number) : Value → Value
  | .number n => .number (f n)
  | .array items => .array (mapNumbersAll f items)
  | .object members => .object (mapNumbersMembers f members)
  | .null => .null
  | .bool b => .bool b
  | .string s => .string s

def mapNumbersAll (f : Number → Number) : List Value → List Value
  | [] => []
  | v :: vs => v.mapNumbers f :: mapNumbersAll f vs

def mapNumbersMembers (f : Number → Number) : List (String × Value) → List (String × Value)
  | [] => []
  | (k, v) :: ms => (k, v.mapNumbers f) :: mapNumbersMembers f ms

end

@[simp] theorem mapNumbers_array (f : Number → Number) (items : List Value) :
    (array items).mapNumbers f = array (items.map (mapNumbers f)) := by
  rw [mapNumbers]
  congr 1
  induction items with
  | nil => rfl
  | cons v vs ih => rw [mapNumbersAll, ih, List.map_cons]

@[simp] theorem mapNumbers_object (f : Number → Number) (ms : List (String × Value)) :
    (object ms).mapNumbers f = object (ms.map (Prod.map id (mapNumbers f))) := by
  rw [mapNumbers]
  congr 1
  induction ms with
  | nil => rfl
  | cons e ms ih => rw [mapNumbersMembers, ih]; rfl

@[simp] theorem mapNumbers_id (v : Value) : v.mapNumbers id = v := by
  induction v using Value.induction with
  | null | bool | number | string => rfl
  | array items ih => rw [mapNumbers_array, List.map_congr_left ih, List.map_id']
  | object ms ih =>
    have hms : ∀ e ∈ ms, Prod.map id (mapNumbers id) e = e := fun e he => Prod.ext rfl (ih e he)
    rw [mapNumbers_object, List.map_congr_left hms, List.map_id']

end Json.Value

end MarkupTree

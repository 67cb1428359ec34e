import MarkupTree.Attribute
import MarkupTree.Proofs.OrderedMap
import MarkupTree.Proofs.Tree
import Mathlib.Data.List.Forall2

/-!
# Attributes as leaves

The leaves of a mapping are its attribute values in reading order, each under the name that the keys
on the way to it make, and each as often as it stands there. Flattening collapses names in every
nested mapping before it sets them in the outer one; the outcome is the map that the leaves make at
once (`Properties.flatten_eq_ofEntries`). So the attributes are the leaves with repeated names left
out: the first leaf of a name gives the place, the last one the value (`Properties.flatten_leaves`).
What keys lead to from mapping to mapping (`PropertyValue.get?`) is a leaf under their joined names,
if it is an attribute value (`Properties.mem_leaves_of_get?`).

`Properties.mapAttributes` changes the attribute values of a mapping wherever they lie in it, and so
the values of its attributes, at the same names (`Properties.flatten_mapAttributes`). Mappings with
the same leaves, up to scalars with the same texts, have the same attributes in that sense
(`Properties.flatten_sameParts`).
-/

namespace MarkupTree

open OrderedMap

mutual

/-- The leaves of an entry with this name: its value, or the leaves of the nested mapping, each
under the name of the entry, a dash, and its own. -/
def PropertyValue.leaves (name : String) : PropertyValue → List (String × AttributeValue)
  | .attr a => [(name, a)]
  | .nested p => (Properties.leaves p).map fun e => (name ++ "-" ++ e.1, e.2)

/-- The leaves of the entries in order. -/
def Properties.leaves : List (PropertyKey × PropertyValue) → List (String × AttributeValue)
  | [] => []
  | (k, v) :: p => v.leaves k.flat ++ Properties.leaves p

end

theorem Properties.mem_leaves {p : Properties} {e : PropertyKey × PropertyValue} (he : e ∈ p)
    {d : String × AttributeValue} (hd : d ∈ e.2.leaves e.1.flat) : d ∈ leaves p := by
  induction p with
  | nil => cases he
  | cons e' p ih =>
    rw [leaves, List.mem_append]
    rcases List.mem_cons.1 he with rfl | he
    · exact .inl hd
    · exact .inr (ih he)

@[simp] theorem Properties.leaves_append (p q : Properties) :
    leaves (p ++ q) = leaves p ++ leaves q := by
  induction p with
  | nil => rfl
  | cons e p ih => rw [List.cons_append, leaves, leaves, ih, List.append_assoc]

/-- What names lead to, from mapping to mapping. -/
def PropertyValue.get? : PropertyValue → List String → Option PropertyValue
  | v, [] => some v
  | .nested p, k :: ks => (find? (.name k) p).bind fun v => v.get? ks
  | .attr _, _ :: _ => none

@[simp] theorem PropertyValue.get?_nil (v : PropertyValue) : v.get? [] = some v := by
  cases v <;> rfl

theorem PropertyValue.mem_leaves_of_get? {v : PropertyValue} {ks : List String}
    {a : AttributeValue} (h : v.get? ks = some (.attr a)) (name : String) :
    ("-".intercalate (name :: ks), a) ∈ v.leaves name := by
  induction ks generalizing v name with
  | nil =>
    rw [get?_nil] at h
    cases h
    exact List.mem_singleton.2 rfl
  | cons k ks ih =>
    cases v with
    | attr b => simp [get?] at h
    | nested p =>
      obtain ⟨w, hw, h⟩ := Option.bind_eq_some_iff.1 h
      have hleaf := Properties.mem_leaves (mem_of_find? hw) (ih h k)
      rw [leaves]
      exact List.mem_map.2 ⟨_, hleaf, by simp⟩

theorem Properties.mem_leaves_of_get? {p : Properties} {k : String} {ks : List String}
    {a : AttributeValue} (h : (PropertyValue.nested p).get? (k :: ks) = some (.attr a)) :
    ("-".intercalate (k :: ks), a) ∈ leaves p := by
  obtain ⟨w, hw, h⟩ := Option.bind_eq_some_iff.1 h
  exact mem_leaves (mem_of_find? hw) (PropertyValue.mem_leaves_of_get? h k)

/-! ## Flattening -/

/-- The attributes of a nested mapping are set under longer names. -/
theorem PropertyValue.setAttributes_nested (m : Attributes) (name : String) (p : Properties) :
    (nested p).setAttributes m name =
      extend m (p.flatten.map (Prod.map (name ++ "-" ++ ·) id)) := by
  rw [setAttributes, extend, List.foldl_map]
  rfl

theorem Properties.flattenInto_eq_extend {p : Properties}
    (h : ∀ e ∈ p, ∀ name m, e.2.setAttributes m name = extend m (e.2.leaves name))
    (m : Attributes) : flattenInto m p = extend m (leaves p) := by
  induction p generalizing m with
  | nil => rfl
  | cons e p ih =>
    rw [flattenInto, leaves, extend_append, h e List.mem_cons_self,
      ih fun d hd => h d (List.mem_cons_of_mem _ hd)]

/-- Names are longer by what stands in front of them, so they stay as distinct as they are. -/
theorem prefix_injective (s : String) : Function.Injective (s ++ ·) :=
  fun _ _ h => (String.append_right_inj s).1 h

/-- **An entry is set leaf by leaf**, whatever is set already. -/
theorem PropertyValue.setAttributes_eq_extend (v : PropertyValue) (name : String) (m : Attributes) :
    v.setAttributes m name = extend m (v.leaves name) := by
  induction v using PropertyValue.induction generalizing name m with
  | attr a => rfl
  | nested p ih =>
    -- The nested mapping was collapsed under short names; under long ones it is collapsed alike.
    have hflat : Properties.flatten p = ofEntries (Properties.leaves p) :=
      Properties.flattenInto_eq_extend ih []
    rw [setAttributes_nested, hflat, ← ofEntries_map (prefix_injective _) id, extend_ofEntries]
    rfl

/-- **The attributes of a mapping are the map that its leaves make.** -/
theorem Properties.flatten_eq_ofEntries (p : Properties) : p.flatten = ofEntries (leaves p) :=
  flattenInto_eq_extend (fun e _ => e.2.setAttributes_eq_extend) []

/-- **The attributes are the leaves without repeated names.** The names stand in the order in which
the leaves first have them, none twice and none lost, and each has the value of the last leaf with
that name. -/
theorem Properties.flatten_leaves (p : Properties) :
    keys p.flatten = (keys (leaves p)).eraseDups ∧ (keys p.flatten).Nodup ∧
      (∀ name, name ∈ keys p.flatten ↔ name ∈ keys (leaves p)) ∧
      ∀ name a, (name, a) ∈ p.flatten ↔
        ∃ before after, leaves p = before ++ (name, a) :: after ∧ name ∉ keys after := by
  have hkeys : keys p.flatten = (keys (leaves p)).eraseDups := by
    rw [flatten_eq_ofEntries, keys_ofEntries]
  refine ⟨hkeys, ?_, fun name => ?_, fun name a => ?_⟩
  · rw [flatten_eq_ofEntries]
    exact nodup_keys_ofEntries _
  · rw [hkeys, List.mem_eraseDups]
  · rw [flatten_eq_ofEntries]
    exact mem_ofEntries_iff

/-! ## Other attribute values -/

mutual

/-- The value with every attribute value changed, whatever mappings it lies in. -/
def PropertyValue.mapAttributes (f : AttributeValue → AttributeValue) :
    PropertyValue → PropertyValue
  | .attr a => .attr (f a)
  | .nested p => .nested (Properties.mapAttributes f p)

/-- The entries with every attribute value changed, at the same keys. -/
def Properties.mapAttributes (f : AttributeValue → AttributeValue) :
    List (PropertyKey × PropertyValue) → List (PropertyKey × PropertyValue)
  | [] => []
  | (k, v) :: p => (k, v.mapAttributes f) :: Properties.mapAttributes f p

end

variable (f : AttributeValue → AttributeValue)

@[simp] theorem Properties.mapAttributes_eq (p : Properties) :
    mapAttributes f p = p.map (Prod.map id (PropertyValue.mapAttributes f)) := by
  induction p with
  | nil => rfl
  | cons e p ih => rw [mapAttributes, ih]; rfl

theorem Properties.leaves_mapAttributes_of {p : Properties}
    (h : ∀ e ∈ p, ∀ name, (e.2.mapAttributes f).leaves name = (e.2.leaves name).map (Prod.map id f)) :
    leaves (mapAttributes f p) = (leaves p).map (Prod.map id f) := by
  induction p with
  | nil => rfl
  | cons e p ih =>
    rw [mapAttributes, leaves, leaves, List.map_append, h e List.mem_cons_self,
      ih fun d hd => h d (List.mem_cons_of_mem _ hd)]

theorem PropertyValue.leaves_mapAttributes (v : PropertyValue) (name : String) :
    (v.mapAttributes f).leaves name = (v.leaves name).map (Prod.map id f) := by
  induction v using PropertyValue.induction generalizing name with
  | attr a => rfl
  | nested p ih =>
    rw [mapAttributes, leaves, leaves, Properties.leaves_mapAttributes_of f ih, List.map_map,
      List.map_map]
    rfl

/-- **Changing attribute values before flattening or after it is the same**: also where a name is
set again, the value that was set last is the one that is changed. -/
theorem Properties.flatten_mapAttributes (p : Properties) :
    flatten (mapAttributes f p) = (flatten p).map (Prod.map id f) := by
  rw [flatten_eq_ofEntries, flatten_eq_ofEntries,
    leaves_mapAttributes_of f fun e _ => e.2.leaves_mapAttributes f,
    ofEntries_map Function.injective_id]

/-! ## Attributes with the same texts -/

/-- Attributes of the same names with the same texts. -/
def Attributes.SameParts (m m' : Attributes) : Prop :=
  m.map (Prod.map id AttributeValue.parts) = m'.map (Prod.map id AttributeValue.parts)

theorem Attributes.SameParts.append {m m' es es' : Attributes} (h : m.SameParts m')
    (hes : es.SameParts es') : SameParts (m ++ es) (m' ++ es') := by
  rw [SameParts, List.map_append, List.map_append, h, hes]

theorem Attributes.SameParts.rename {m m' : Attributes} (h : m.SameParts m') (f : String → String) :
    SameParts (m.map (Prod.map f id)) (m'.map (Prod.map f id)) := by
  have hf : ∀ m : Attributes, (m.map (Prod.map f id)).map (Prod.map id AttributeValue.parts) =
      (m.map (Prod.map id AttributeValue.parts)).map (Prod.map f id) := fun m => by
    rw [List.map_map, List.map_map, Prod.map_comp_map, Prod.map_comp_map]
    rfl
  rw [SameParts, hf, hf, h]

theorem Properties.leaves_sameParts {p q : Properties}
    (h : List.Forall₂ (fun e d => e.1.flat = d.1.flat ∧
      ∀ name, Attributes.SameParts (e.2.leaves name) (d.2.leaves name)) p q) :
    Attributes.SameParts (leaves p) (leaves q) := by
  induction h with
  | nil => rfl
  | cons hed _ ih =>
    obtain ⟨hname, hleaves⟩ := hed
    rw [leaves, leaves, hname]
    exact (hleaves _).append ih

theorem PropertyValue.leaves_nested_sameParts {p q : Properties}
    (h : Attributes.SameParts (Properties.leaves p) (Properties.leaves q)) (name : String) :
    Attributes.SameParts ((nested p).leaves name) ((nested q).leaves name) :=
  h.rename (name ++ "-" ++ ·)

theorem Properties.flatten_sameParts {p q : Properties}
    (h : Attributes.SameParts (leaves p) (leaves q)) : p.flatten.SameParts q.flatten := by
  rw [flatten_eq_ofEntries, flatten_eq_ofEntries, Attributes.SameParts,
    ← ofEntries_map Function.injective_id, ← ofEntries_map Function.injective_id, h]

end MarkupTree

import MarkupTree.Proofs.Interchange.Load
import MarkupTree.Proofs.Tree

/-!
# Loading what was saved

`Node.canon` is what is left of a tree that is saved as JSON and loaded again: tags, texts and
children are the same, and properties come back under names, in the scalars that JSON tells apart.
`ofJson_toJson` proves that loading a saved tree never fails and gives just that.
-/

namespace MarkupTree

open Json OrderedMap

/-! ## The tree that comes back -/

/-- A symbol comes back as text, a natural number as a signed integer where it fits one, and what
is no finite number as an empty text. -/
def Scalar.canon : Scalar → Scalar
  | .bool b => .bool b
  | .int n => .int n
  | .uint n => if n.toNat ≤ 0x7fffffffffffffff then .int (Int64.ofNat n.toNat) else .uint n
  | .float x => if (Decimal.Binary64.ofFloat x).isFinite then .float x else .str ""
  | .str s => .str s
  | .symbol s => .str s

/-- Sequences come back item by item. -/
def AttributeValue.canon : AttributeValue → AttributeValue
  | .list items => .list (items.map Scalar.canon)
  | .scalar s => .scalar s.canon

mutual

/-- A nested mapping comes back as the map that its entries make under their names. -/
def PropertyValue.canon : PropertyValue → PropertyValue
  | .nested p => .nested (ofEntries (Properties.canonEntries p))
  | .attr a => .attr a.canon

/-- The entries of a mapping under the names of their keys. -/
def Properties.canonEntries :
    List (PropertyKey × PropertyValue) → List (PropertyKey × PropertyValue)
  | [] => []
  | (k, v) :: p => (.name k.flat, v.canon) :: Properties.canonEntries p

end

/-- The map that the entries of a mapping make under their names. -/
def Properties.canon (p : Properties) : Properties := ofEntries (canonEntries p)

namespace Node

/-- The mapping of an element is absent where it has no entries. -/
def canonProperties : Option Properties → Option Properties
  | none => none
  | some p => if p.isEmpty then none else some (Properties.canon p)

mutual

/-- The tree that comes back. -/
def canon : Node → Node
  | .text s => .text s
  | .element tag p none => .element tag (canonProperties p) none
  | .element tag p (some children) => .element tag (canonProperties p) (some (canonAll children))

def canonAll : List Node → List Node
  | [] => []
  | n :: ns => n.canon :: canonAll ns

end

@[simp] theorem canonAll_eq (ns : List Node) : canonAll ns = ns.map canon := by
  induction ns with
  | nil => rfl
  | cons n ns ih => rw [canonAll, ih, List.map_cons]

end Node

/-! ## Scalars and sequences -/

theorem toNat_toUInt64_of_nonneg {n : Int64} (h : ¬n.toInt < 0) :
    (n.toUInt64.toNat : Int) = n.toInt := by
  rw [Int64.toNat_toUInt64_of_le (Int64.le_iff_toInt_le.2 (by simpa using h))]
  exact Int.toNat_of_nonneg (by omega)

theorem Scalar.ofUInt64_toUInt64 {n : Int64} (h : ¬n.toInt < 0) : ofUInt64 n.toUInt64 = .int n := by
  have hn := toNat_toUInt64_of_nonneg h
  have hlt := n.toInt_lt
  rw [ofUInt64, if_pos (by omega), Int64.toInt64_toUInt64]

theorem Scalar.ofUInt64_eq_canon (n : UInt64) : ofUInt64 n = (Scalar.uint n).canon := by
  have h : n.toNat < 0x8000000000000000 ↔ n.toNat ≤ 0x7fffffffffffffff := by omega
  rw [ofUInt64, canon]
  simp only [h, ← UInt64.toInt64_ofNat', UInt64.ofNat_toNat]

theorem Scalar.ofJson?_blankNulls_toJson (s : Scalar) :
    ofJson? s.toJson.blankNulls = some s.canon := by
  cases s with
  | bool b => rfl
  | int n =>
    rw [toJson, Number.ofInt64, canon]
    split
    · rfl
    · rename_i h
      exact (ofJson?_eq _).trans (congrArg some (ofUInt64_toUInt64 h))
  | uint n => exact (ofJson?_eq _).trans (congrArg some (ofUInt64_eq_canon n))
  | float x => rw [toJson, canon]; split <;> rfl
  | str s => rfl
  | symbol s => rfl

theorem Scalar.collapse_toJson (s : Scalar) : s.toJson.collapse = s.toJson := by
  cases s with
  | float x => rw [toJson]; split <;> rfl
  | _ => rfl

theorem AttributeValue.collapse_toJson (a : AttributeValue) : a.toJson.collapse = a.toJson := by
  cases a with
  | list items =>
    simpa [toJson] using congrArg Value.array (List.map_congr_left fun s _ => s.collapse_toJson)
  | scalar s => exact s.collapse_toJson

theorem Scalar.mapM_ofJson?_blankNulls (items : List Scalar) :
    (items.map (·.toJson.blankNulls)).mapM ofJson? = some (items.map canon) := by
  induction items with
  | nil => rfl
  | cons s items ih =>
    rw [List.map_cons, List.mapM_cons, ofJson?_blankNulls_toJson, ih]
    rfl

theorem AttributeValue.ofJson?_blankNulls_toJson (a : AttributeValue) :
    ofJson? a.toJson.blankNulls = some a.canon := by
  cases a with
  | list items =>
    have h := Scalar.mapM_ofJson?_blankNulls items
    rw [toJson, Value.blankNulls_array, List.map_map, ofJson?]
    exact congrArg (Option.map list) h
  | scalar s => exact ofJson?_of_scalar s.ofJson?_blankNulls_toJson

/-! ## Mappings -/

@[simp] theorem Properties.canonEntries_eq (p : Properties) :
    canonEntries p = p.map (Prod.map (.name ∘ PropertyKey.flat) PropertyValue.canon) := by
  induction p with
  | nil => rfl
  | cons e p ih => rw [canonEntries, ih]; rfl

/-- The values of a mapping under the names that their keys make. -/
def Properties.byName (p : Properties) : OrderedMap String PropertyValue :=
  ofEntries (p.map (Prod.map PropertyKey.flat id))

theorem Properties.values_byName {p : Properties} {P : PropertyValue → Prop}
    (h : ∀ e ∈ p, P e.2) : ∀ e ∈ byName p, P e.2 := by
  intro e he
  obtain ⟨d, hd, rfl⟩ := List.mem_map.1 (mem_of_mem_ofEntries he)
  exact h d hd

theorem Properties.collapse_toJson (p : Properties) : (toJson p).collapse =
    .object ((byName p).map (Prod.map id (Value.collapse ∘ PropertyValue.toJson))) := by
  rw [toJson, toMembers_eq, Value.collapse_object, byName,
    ← ofEntries_map Function.injective_id, ← ofEntries_map Function.injective_id, List.map_map,
    List.map_map, Prod.map_comp_map, Prod.map_comp_map]
  rfl

theorem Properties.blankNulls_toJson (p : Properties) : (toJson p).collapse.blankNulls =
    .object ((byName p).map
      (Prod.map id (Value.blankNulls ∘ Value.collapse ∘ PropertyValue.toJson))) := by
  simp [collapse_toJson]

theorem Properties.canon_eq (p : Properties) :
    canon p = (byName p).map (Prod.map .name PropertyValue.canon) := by
  rw [canon, canonEntries_eq, byName, ← ofEntries_map name_injective, List.map_map,
    Prod.map_comp_map]
  rfl

theorem Properties.nodup_keys_canon (p : Properties) : (keys p.canon).Nodup :=
  nodup_keys_ofEntries _

/-- Members with the values of a mapping, each in a form in which it can be read, are read as the
mapping that comes back. -/
theorem Properties.ofMembers?_byName {p : Properties} {f : PropertyValue → Value}
    (h : ∀ e ∈ p, PropertyValue.ofJson? (f e.2) = some e.2.canon) :
    ofMembers? [] ((byName p).map (Prod.map id f)) = some p.canon := by
  have hvalues : ∀ e ∈ byName p, PropertyValue.ofJson? (f e.2) = some e.2.canon :=
    values_byName (P := fun v => PropertyValue.ofJson? (f v) = some v.canon) h
  rw [ofMembers?_map hvalues, ← canon_eq]
  exact congrArg some (ofEntries_of_nodup p.nodup_keys_canon)

/-- Reading a saved value gives the value that comes back, whatever mappings are nested in it. -/
theorem PropertyValue.ofJson?_blankNulls_toJson (v : PropertyValue) :
    ofJson? v.toJson.collapse.blankNulls = some v.canon := by
  induction v using PropertyValue.induction with
  | attr a =>
    rw [toJson, a.collapse_toJson]
    exact ofJson?_of_attribute a.ofJson?_blankNulls_toJson
  | nested p ih =>
    change ofJson? (Properties.toJson p).collapse.blankNulls = _
    rw [Properties.blankNulls_toJson, ofJson?, Properties.ofMembers?_byName ih]
    rfl

theorem Properties.ofJson_blankNulls_toJson (p : Properties) :
    ofJson (toJson p).collapse.blankNulls = .ok p.canon := by
  rw [blankNulls_toJson, ofJson, ofMembers?_byName fun e _ => e.2.ofJson?_blankNulls_toJson]

/-! ## Trees -/

@[simp] theorem Properties.isEmpty_canon (p : Properties) : p.canon.isEmpty = p.isEmpty := by
  rw [Bool.eq_iff_iff, List.isEmpty_iff, List.isEmpty_iff, canon_eq, List.map_eq_nil_iff, byName,
    ofEntries_eq_nil_iff, List.map_eq_nil_iff]

namespace Node

theorem loadProperties_toJson (p : Properties) :
    loadProperties (some (Properties.toJson p).collapse) = .ok (canonProperties (some p)) := by
  rw [loadProperties_of_ofJson (Properties.ofJson_blankNulls_toJson p), Properties.isEmpty_canon]
  rfl

theorem loadElement_toJson (tag : String) (p : Option Properties) {c : Option Value}
    {cs : Option (List Node)} (hc : loadChildren c = .ok cs) :
    loadElement (some (.string tag)) ((p.map Properties.toJson).map Value.collapse) c =
      .ok (.element tag (canonProperties p) cs) := by
  refine loadElement_ok_iff.2 ⟨tag, canonProperties p, cs, rfl, ?_, hc, rfl⟩
  cases p with
  | none => rfl
  | some p => exact loadProperties_toJson p

theorem ofJson_toJson (n : Node) : ofJson n.toJson = .ok n.canon := by
  induction n using Node.induction with
  | text s => rfl
  | bare tag p =>
    rw [toJson, encode_bare, collapse_elementMembers, ofJson_elementMembers, canon]
    exact loadElement_toJson tag p rfl
  | parent tag p ns ih =>
    rw [toJson, encode_parent, collapse_elementMembers, ofJson_elementMembers, canon, canonAll_eq]
    refine loadElement_toJson tag p ?_
    have hcs : ofJsonFrom 0 ((ns.map encode).map Value.collapse) = .ok (ns.map canon) := by
      rw [List.map_map]
      exact ofJsonFrom_map ih 0
    rw [Option.map_some, Value.collapse_array, loadChildren, childrenOfJson_array, hcs]
    rfl

/-- **Loading what was saved gives the tree that comes back**, for every tree. -/
theorem load_toJson (n : Node) : load n.toJson = .ok n.canon := by
  rw [load, toJson, Value.collapse_collapse, ← toJson, ofJson_toJson]

end Node

end MarkupTree

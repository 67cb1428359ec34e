import MarkupTree.Interchange.Encode
import MarkupTree.Proofs.Json.Value

/-!
# Induction over trees

`PropertyValue.induction` and `Node.induction` prove a statement from the values of nested mappings
and from the children. What is written of a mapping and of child lists is a map over the entries and
over the nodes. `Node.Every` says something of the properties of all elements in a tree, and
`Node.mapProperties` changes them. `Node.descendant?` is the node at the end of a path of places
among the children. `PropertyValue.DistinctKeys` and `Node.DistinctKeys` say that no mapping in a
value or in a tree has a key twice, as is so of mappings that are made by setting values.
-/

namespace MarkupTree

open Json

/-- A statement holds of every property value that holds of a nested mapping when it holds of the
values in it, and of attribute values. -/
theorem PropertyValue.induction {P : PropertyValue → Prop} (attr : ∀ a, P (.attr a))
    (nested : ∀ p, (∀ e ∈ p, P e.2) → P (.nested p)) : ∀ v, P v
  | .attr a => attr a
  | .nested p => nested p fun e he =>
    have := List.sizeOf_lt_of_mem he
    have := sizeOf_snd_lt e
    induction attr nested e.2

/-- A statement holds of every tree that holds of an element when it holds of the children, and of
texts and elements without children. -/
theorem Node.induction {P : Node → Prop} (text : ∀ s, P (.text s))
    (bare : ∀ tag p, P (.element tag p none))
    (parent : ∀ tag p children, (∀ n ∈ children, P n) → P (.element tag p (some children))) :
    ∀ n, P n
  | .text s => text s
  | .element tag p none => bare tag p
  | .element tag p (some children) => parent tag p children fun n hn =>
    have := List.sizeOf_lt_of_mem hn
    induction text bare parent n

@[simp] theorem Properties.toMembers_eq (p : Properties) :
    toMembers p = p.map (Prod.map PropertyKey.flat PropertyValue.toJson) := by
  induction p with
  | nil => rfl
  | cons e p ih => rw [toMembers, ih]; rfl

@[simp] theorem Node.encodeAll_eq (ns : List Node) : encodeAll ns = ns.map encode := by
  induction ns with
  | nil => rfl
  | cons n ns ih => rw [encodeAll, ih, List.map_cons]

/-! ## The properties of every element -/

namespace Node

/-- A statement about mappings holds of the properties of every element in a tree. -/
inductive Every (P : Properties → Prop) : Node → Prop
  | text (s : String) : Every P (.text s)
  | bare {tag : String} {p : Option Properties} : (∀ q ∈ p, P q) → Every P (.element tag p none)
  | parent {tag : String} {p : Option Properties} {children : List Node} : (∀ q ∈ p, P q) →
    (∀ n ∈ children, Every P n) → Every P (.element tag p (some children))

theorem Every.of_forall {P : Properties → Prop} (h : ∀ p, P p) (n : Node) : n.Every P := by
  induction n using Node.induction with
  | text s => exact .text s
  | bare tag p => exact .bare fun q _ => h q
  | parent tag p children ih => exact .parent (fun q _ => h q) ih

theorem Every.imp {P Q : Properties → Prop} (h : ∀ p, P p → Q p) {n : Node} (hn : n.Every P) :
    n.Every Q := by
  induction hn with
  | text s => exact .text s
  | bare hp => exact .bare fun q hq => h q (hp q hq)
  | parent hp _ ih => exact .parent (fun q hq => h q (hp q hq)) ih

theorem Every.and {P Q : Properties → Prop} {n : Node} (hp : n.Every P) (hq : n.Every Q) :
    n.Every fun p => P p ∧ Q p := by
  induction hp with
  | text s => exact .text s
  | bare hp =>
    cases hq with
    | bare hq => exact .bare fun q h => ⟨hp q h, hq q h⟩
  | parent hp _ ih =>
    cases hq with
    | parent hq hchildren =>
      exact .parent (fun q h => ⟨hp q h, hq q h⟩) fun m hm => ih m hm (hchildren m hm)

mutual

/-- The tree with the properties of every element changed. -/
def mapProperties (f : Option Properties → Option Properties) : Node → Node
  | .text s => .text s
  | .element tag p none => .element tag (f p) none
  | .element tag p (some children) => .element tag (f p) (some (mapPropertiesAll f children))

def mapPropertiesAll (f : Option Properties → Option Properties) : List Node → List Node
  | [] => []
  | n :: ns => n.mapProperties f :: mapPropertiesAll f ns

end

@[simp] theorem mapPropertiesAll_eq (f : Option Properties → Option Properties) (ns : List Node) :
    mapPropertiesAll f ns = ns.map (mapProperties f) := by
  induction ns with
  | nil => rfl
  | cons n ns ih => rw [mapPropertiesAll, ih, List.map_cons]

@[simp] theorem mapProperties_element (f : Option Properties → Option Properties) (tag : String)
    (p : Option Properties) (cs : Option (List Node)) :
    mapProperties f (.element tag p cs) =
      .element tag (f p) (cs.map (List.map (mapProperties f))) := by
  cases cs with
  | none => rfl
  | some ns => simp [mapProperties]

end Node

/-! ## Mappings with distinct keys -/

/-- In every mapping that the value is or holds, each key is set once. -/
inductive PropertyValue.DistinctKeys : PropertyValue → Prop
  | attr (a : AttributeValue) : DistinctKeys (.attr a)
  | nested {p : Properties} : (OrderedMap.keys p).Nodup → (∀ e ∈ p, DistinctKeys e.2) →
    DistinctKeys (.nested p)

/-- Values that are set one by one make a mapping with distinct keys, whatever the keys are. -/
theorem Properties.distinctKeys_ofEntries {es : List (PropertyKey × PropertyValue)}
    (h : ∀ e ∈ es, e.2.DistinctKeys) : (PropertyValue.nested (OrderedMap.ofEntries es)).DistinctKeys :=
  .nested (OrderedMap.nodup_keys_ofEntries es) fun e he => h e (OrderedMap.mem_of_mem_ofEntries he)

/-- In every mapping in the tree, each key is set once. -/
def Node.DistinctKeys (n : Node) : Prop := n.Every fun p => (PropertyValue.nested p).DistinctKeys

/-! ## Nodes in a tree -/

/-- The node to which places among the children lead, from the root on. -/
def Node.descendant? : Node → List Nat → Option Node
  | n, [] => some n
  | n, i :: path => n.childList[i]?.bind fun m => m.descendant? path

namespace Node

@[simp] theorem descendant?_nil (n : Node) : n.descendant? [] = some n := by cases n <;> rfl

@[simp] theorem descendant?_step (tag : String) (p : Option Properties) (before after : List Node)
    (c : Node) (path : List Nat) :
    (Node.element tag p (some (before ++ c :: after))).descendant? (before.length :: path) =
      c.descendant? path := by
  simp [descendant?, childList]

/-- The first step of a path goes to a child of an element. -/
theorem exists_of_descendant?_cons {t n : Node} {i : Nat} {path : List Nat}
    (h : t.descendant? (i :: path) = some n) : ∃ tag p before c after,
      t = .element tag p (some (before ++ c :: after)) ∧ i = before.length ∧
      c.descendant? path = some n := by
  obtain ⟨c, hc, hn⟩ := Option.bind_eq_some_iff.1 h
  rcases t with s | ⟨tag, p, _ | ns⟩
  · cases hc
  · cases hc
  · obtain ⟨hi, rfl⟩ := List.getElem?_eq_some_iff.1 (show ns[i]? = some c from hc)
    refine ⟨tag, p, ns.take i, ns[i], ns.drop (i + 1), ?_, ?_, hn⟩
    · rw [← List.drop_eq_getElem_cons hi, List.take_append_drop]
    · rw [List.length_take, Nat.min_eq_left (Nat.le_of_lt hi)]

theorem Every.of_descendant? {P : Properties → Prop} {n : Node} {path : List Nat} {tag : String}
    {p : Option Properties} {cs : Option (List Node)} (hn : n.Every P)
    (h : n.descendant? path = some (.element tag p cs)) : ∀ q ∈ p, P q := by
  induction path generalizing n with
  | nil =>
    rw [descendant?_nil] at h
    cases h
    cases hn with
    | bare hp => exact hp
    | parent hp _ => exact hp
  | cons i path ih =>
    obtain ⟨tag, p, before, c, after, rfl, rfl, hc⟩ := exists_of_descendant?_cons h
    cases hn with
    | parent _ hchildren => exact ih (hchildren c (by simp)) hc

end Node

/-! ## The members of an element -/

/-- The members of an element with this tag, and with these values for properties and children. -/
def Node.elementMembers (tag : String) (properties children : Option Value) :
    List (String × Value) :=
  ("type", .string elementType) :: ("tag", .string tag) ::
    ((properties.map ("properties", ·)).toList ++ (children.map ("children", ·)).toList)

namespace Node

theorem encode_bare (tag : String) (p : Option Properties) :
    encode (.element tag p none) =
      .object (elementMembers tag (p.map Properties.toJson) none) := by
  cases p <;> rfl

theorem encode_parent (tag : String) (p : Option Properties) (ns : List Node) :
    encode (.element tag p (some ns)) =
      .object (elementMembers tag (p.map Properties.toJson) (some (.array (ns.map encode)))) := by
  rw [encode, encodeAll_eq]
  cases p <;> rfl

variable (tag : String) (p c : Option Value)

@[simp] theorem find?_elementMembers :
    OrderedMap.find? "type" (elementMembers tag p c) = some (.string elementType) ∧
    OrderedMap.find? "tag" (elementMembers tag p c) = some (.string tag) ∧
    OrderedMap.find? "properties" (elementMembers tag p c) = p ∧
    OrderedMap.find? "children" (elementMembers tag p c) = c := by
  cases p <;> cases c <;> simp [elementMembers]

theorem nodup_keys_elementMembers : (OrderedMap.keys (elementMembers tag p c)).Nodup := by
  cases p <;> cases c <;> simp [elementMembers]

@[simp] theorem collapse_elementMembers : (Value.object (elementMembers tag p c)).collapse =
    .object (elementMembers tag (p.map Value.collapse) (c.map Value.collapse)) := by
  rw [Value.collapse_object, OrderedMap.ofEntries_of_nodup (nodup_keys_elementMembers tag p c)]
  cases p <;> cases c <;> rfl

end Node

end MarkupTree

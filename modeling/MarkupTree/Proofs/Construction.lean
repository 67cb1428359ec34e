import MarkupTree.Proofs.Argument
import MarkupTree.Proofs.Interchange.Place
import MarkupTree.Proofs.Interchange.Settled

/-!
# Constructed trees

A tree comes about in some way (`Node.Constructed`): as a text, as an element that is bare, changed,
defined by arguments or built step by step, of nodes that have come about before; or as what is
loaded from a value or a text. Whatever the way, no element in it holds a mapping without entries
(`Node.Tidy`, `Node.tidy_of_constructed`). So properties are there just if there is something in
them, and no member for properties is saved as an empty object (`Node.properties_of_constructed`).
-/

namespace MarkupTree

open Json OrderedMap

theorem PropertyValue.Settled.distinctKeys {v : PropertyValue} (h : v.Settled) :
    v.DistinctKeys := by
  induction h with
  | attr _ => exact .attr _
  | nested hkeys _ _ ih => exact .nested hkeys ih

/-! ## Tidy trees -/

/-- Every element in the tree has properties with at least one entry and distinct keys, or none. -/
def Node.Tidy (n : Node) : Prop :=
  n.Every fun p => p ≠ [] ∧ (PropertyValue.nested p).DistinctKeys

/-- What makes the node of an element tidy. -/
structure Element.Tidy (e : Element) : Prop where
  properties : ∀ p ∈ e.properties, p ≠ [] ∧ (PropertyValue.nested p).DistinctKeys
  children : ∀ ns ∈ e.children, ∀ n ∈ ns, n.Tidy

namespace Element

theorem tidy_toNode_iff {e : Element} : e.toNode.Tidy ↔ e.Tidy := by
  obtain ⟨tag, p, cs⟩ := e
  constructor
  · intro h
    cases h with
    | bare hp => exact ⟨hp, nofun⟩
    | parent hp hchildren =>
      refine ⟨hp, ?_⟩
      rintro ns ⟨⟩
      exact hchildren
  · intro h
    cases cs with
    | none => exact .bare h.properties
    | some ns => exact .parent h.properties (h.children ns rfl)

/-- One change of an element: other properties, or other children. -/
inductive Change
  | properties (p : Properties)
  | children (nodes : List Node)

/-- Changes an element. -/
def change (e : Element) : Change → Element
  | .properties p => e.withProperties p
  | .children nodes => e.withChildren nodes

/-- The mappings that a change brings have distinct keys. -/
def Change.DistinctKeys (c : Change) : Prop :=
  ∀ p, c = .properties p → (PropertyValue.nested p).DistinctKeys

/-- The nodes that a change brings. -/
def Change.nodes : Change → List Node
  | .properties _ => []
  | .children nodes => nodes

theorem tidy_bare (tag : String) : (bare tag).Tidy := ⟨nofun, nofun⟩

/-- A change keeps an element tidy: an empty mapping is not stored, not even in place of another. -/
theorem Tidy.change {e : Element} (he : e.Tidy) {c : Change} (hc : c.DistinctKeys)
    (hnodes : ∀ n ∈ c.nodes, n.Tidy) : (e.change c).Tidy := by
  cases c with
  | properties p =>
    refine ⟨fun q hq => ?_, he.children⟩
    by_cases hp : p = []
    · subst hp
      cases hq
    · have hstored : (if p.isEmpty then none else some p) = some p := by simp [hp]
      obtain rfl : p = q := Option.some.inj (hstored.symm.trans hq)
      exact ⟨hp, hc p rfl⟩
  | children nodes =>
    refine ⟨he.properties, ?_⟩
    rintro ns ⟨⟩
    exact hnodes

end Element

theorem Builder.tidy_build_run (tag : String) {steps : List Step}
    (hentries : ∀ s ∈ steps, ∀ e ∈ s.entries, e.2.DistinctKeys)
    (hnodes : ∀ s ∈ steps, ∀ n ∈ s.nodes, n.Tidy) :
    ((start tag).run steps).build.toNode.Tidy := by
  have hmap : (PropertyValue.nested (ofEntries (steps.flatMap Step.entries))).DistinctKeys := by
    refine Properties.distinctKeys_ofEntries fun e he => ?_
    obtain ⟨s, hs, he⟩ := List.mem_flatMap.1 he
    exact hentries s hs e he
  have hproperties : ∀ p ∈ (if (ofEntries (steps.flatMap Step.entries)).isEmpty then none
      else some (ofEntries (steps.flatMap Step.entries))),
      p ≠ [] ∧ (PropertyValue.nested p).DistinctKeys := by
    intro p hp
    split at hp
    · cases hp
    · rename_i hne
      cases hp
      exact ⟨by simpa using hne, hmap⟩
  rw [run_eq, build_toNode]
  split
  · refine .parent hproperties fun n hn => ?_
    obtain ⟨s, hs, hn⟩ := List.mem_flatMap.1 (show n ∈ steps.flatMap Step.nodes from hn)
    exact hnodes s hs n hn
  · exact .bare hproperties

/-! ## Arguments -/

namespace Argument

/-- A mapping that is given as an argument has distinct keys, as have those nested in it. -/
def DistinctKeys (a : Argument) : Prop :=
  ∀ p, a = .properties p → (PropertyValue.nested p).DistinctKeys

/-- The nodes that an argument holds. -/
def nodes : Argument → List Node
  | .children nodes => nodes
  | .node n => [n]
  | .properties _ | .text _ | .integer _ | .number _ | .bool _ | .symbol _ => []

theorem DistinctKeys.isMap {a : Argument} (h : a.DistinctKeys) : a.IsMap := by
  intro p hp
  cases h p hp with
  | nested hkeys _ => exact hkeys

theorem mem_steps {first second : Option Argument} {s : Builder.Step} (h : s ∈ steps first second) :
    ∃ a, (a ∈ first ∨ a ∈ second) ∧ a.step? = some s := by
  rcases first with _ | a
  · cases h
  rcases List.mem_append.1 h with h | h
  · exact ⟨a, .inl rfl, Option.mem_toList.1 h⟩
  · obtain ⟨b, hb, hs⟩ := Option.bind_eq_some_iff.1 (Option.mem_toList.1 h)
    exact ⟨b, .inr hb, hs⟩

theorem DistinctKeys.entries {a : Argument} (ha : a.DistinctKeys) {s : Builder.Step}
    (h : a.step? = some s) : ∀ e ∈ s.entries, e.2.DistinctKeys := by
  cases a with
  | properties p =>
    cases h
    cases ha p rfl with
    | nested _ hvalues => exact hvalues
  | children | text => cases h; exact nofun
  | integer | number | bool | symbol | node => cases h

theorem tidy_nodes_of_step? {a : Argument} (ha : ∀ n ∈ a.nodes, n.Tidy) {s : Builder.Step}
    (h : a.step? = some s) : ∀ n ∈ s.nodes, n.Tidy := by
  cases a with
  | properties p => cases h; exact nofun
  | children nodes => cases h; exact ha
  | text t =>
    cases h
    exact List.forall_mem_singleton.2 (.text t)
  | integer | number | bool | symbol | node => cases h

end Argument

namespace Node

theorem tidy_of_define {tag : String} {first second : Option Argument} {n : Node}
    (hkeys : ∀ a, a ∈ first ∨ a ∈ second → a.DistinctKeys)
    (hnodes : ∀ a, a ∈ first ∨ a ∈ second → ∀ m ∈ a.nodes, m.Tidy)
    (h : define tag first second = .ok n) : n.Tidy := by
  have haccepted : Argument.Accepted first second := by
    refine Classical.byContradiction fun hno => ?_
    obtain ⟨f, hf, -⟩ := define_of_not_accepted tag hno
    rw [hf] at h
    cases h
  rw [define_of_accepted tag haccepted fun a ha => (hkeys a (.inl ha)).isMap] at h
  cases h
  refine Builder.tidy_build_run tag (fun s hs => ?_) fun s hs => ?_
  · obtain ⟨a, ha, hstep⟩ := Argument.mem_steps hs
    exact (hkeys a ha).entries hstep
  · obtain ⟨a, ha, hstep⟩ := Argument.mem_steps hs
    exact Argument.tidy_nodes_of_step? (hnodes a ha) hstep

/-! ## All ways -/

/-- The tree comes about in one of the ways that the library has, of nodes that come about so too.
-/
inductive Constructed : Node → Prop
  | text (s : String) : Constructed (.text s)
  | bare (tag : String) : Constructed (Element.bare tag).toNode
  | change {e : Element} {c : Element.Change} : Constructed e.toNode → c.DistinctKeys →
    (∀ m ∈ c.nodes, Constructed m) → Constructed (e.change c).toNode
  | define {tag : String} {first second : Option Argument} {n : Node} :
    (∀ a, a ∈ first ∨ a ∈ second → a.DistinctKeys) →
    (∀ a, a ∈ first ∨ a ∈ second → ∀ m ∈ a.nodes, Constructed m) →
    Node.define tag first second = .ok n → Constructed n
  | build (tag : String) {steps : List Builder.Step} :
    (∀ s ∈ steps, ∀ e ∈ s.entries, e.2.DistinctKeys) →
    (∀ s ∈ steps, ∀ m ∈ s.nodes, Constructed m) →
    Constructed ((Builder.start tag).run steps).build.toNode
  | load {v : Value} {n : Node} : Node.load v = .ok n → Constructed n
  | ofText {text : String} {n : Node} : Node.ofText text = .ok n → Constructed n

theorem Settled.tidy {n : Node} (h : n.Settled) : n.Tidy :=
  h.imp fun _ hp => ⟨hp.1, hp.2.distinctKeys⟩

/-- **Whatever way a tree comes about, it is tidy.** -/
theorem tidy_of_constructed {n : Node} (h : n.Constructed) : n.Tidy := by
  induction h with
  | text s => exact .text s
  | bare tag => exact Element.tidy_toNode_iff.2 (Element.tidy_bare tag)
  | change _ hkeys _ ih ihnodes =>
    have he := Element.tidy_toNode_iff.1 ih
    exact Element.tidy_toNode_iff.2 (he.change hkeys ihnodes)
  | define hkeys _ hdefine ih => exact tidy_of_define hkeys ih hdefine
  | build tag hentries _ ih => exact Builder.tidy_build_run tag hentries ih
  | load hload => exact (settled_of_ofJson (load_ok_iff_ofJson.1 hload)).tidy
  | ofText htext =>
    obtain ⟨v, -, hv⟩ := ofText_ok_iff.1 htext
    exact (settled_of_ofJson hv).tidy

/-! ## What is saved of a place -/

section Members

variable (tag : String) (p c : Option Value) (path : List Json.Step)

theorem get?_elementMembers_properties :
    (Value.object (elementMembers tag p c)).get? (.member "properties" :: path) =
      p.bind fun v => v.get? path := by
  obtain ⟨-, -, hp, -⟩ := find?_elementMembers tag p c
  rw [Value.get?, find?_reverse (nodup_keys_elementMembers tag p c), hp]

theorem get?_elementMembers_children :
    (Value.object (elementMembers tag p c)).get? (.member "children" :: path) =
      c.bind fun v => v.get? path := by
  obtain ⟨-, -, -, hc⟩ := find?_elementMembers tag p c
  rw [Value.get?, find?_reverse (nodup_keys_elementMembers tag p c), hc]

end Members

theorem encode_get? {n m : Node} {path : List Nat} (h : n.descendant? path = some m) :
    n.encode.get? (childPath path) = some m.encode := by
  induction path generalizing n with
  | nil =>
    rw [descendant?_nil] at h
    cases h
    exact Value.get?_nil _
  | cons i path ih =>
    obtain ⟨tag, p, before, c, after, rfl, rfl, hc⟩ := exists_of_descendant?_cons h
    have hpath : childPath (before.length :: path) =
        .member "children" :: .item before.length :: childPath path := rfl
    rw [hpath, encode_parent, get?_elementMembers_children, Option.bind_some, Value.get?]
    simpa using ih hc

theorem encode_get?_properties {n : Node} {path : List Nat} {tag : String} {p : Option Properties}
    {cs : Option (List Node)} (h : n.descendant? path = some (.element tag p cs)) :
    n.encode.get? (childPath path ++ [.member "properties"]) = p.map Properties.toJson ∧
    n.toJson.get? (childPath path ++ [.member "properties"]) =
      p.map fun q => (Properties.toJson q).collapse := by
  have hencode : ∃ c, (Node.element tag p cs).encode =
      .object (elementMembers tag (p.map Properties.toJson) c) := by
    cases cs with
    | none => exact ⟨none, encode_bare tag p⟩
    | some ns => exact ⟨_, encode_parent tag p ns⟩
  obtain ⟨c, hc⟩ := hencode
  have hplace := encode_get? h
  have hcollapsed := Value.get?_collapse hplace
  rw [hc] at hplace hcollapsed
  rw [collapse_elementMembers] at hcollapsed
  rw [toJson, Value.get?_append, Value.get?_append, hplace, hcollapsed]
  simp only [Option.bind_some, get?_elementMembers_properties, Value.get?_nil, Option.map_map]
  cases p <;> exact ⟨rfl, rfl⟩

theorem toJson_ne_empty {p : Properties} (h : p ≠ []) :
    Properties.toJson p ≠ .object [] ∧ (Properties.toJson p).collapse ≠ .object [] := by
  have hmembers : Properties.toMembers p ≠ [] := by
    rw [Properties.toMembers_eq]
    exact mt List.map_eq_nil_iff.1 h
  rw [Properties.toJson, Value.collapse_object]
  constructor
  · intro hempty
    exact hmembers (Value.object.inj hempty)
  · intro hempty
    have hmap := ofEntries_eq_nil_iff.1 (List.map_eq_nil_iff.1 (Value.object.inj hempty))
    exact hmembers hmap

/-- **No tree that comes about holds an empty mapping.** Every element in it has properties with at
least one entry and distinct keys, or none; so it has properties just if they are present, and the
member that is saved for them is never an empty object. -/
theorem properties_of_constructed {n : Node} (hn : n.Constructed) {path : List Nat} {tag : String}
    {p : Option Properties} {cs : Option (List Node)}
    (h : n.descendant? path = some (.element tag p cs)) :
    (∀ q ∈ p, q ≠ [] ∧ (keys q).Nodup ∧ (PropertyValue.nested q).DistinctKeys) ∧
    (Node.element tag p cs).hasProperties = p.isSome ∧
    n.encode.get? (childPath path ++ [.member "properties"]) = p.map Properties.toJson ∧
    n.encode.get? (childPath path ++ [.member "properties"]) ≠ some (.object []) ∧
    n.toJson.get? (childPath path ++ [.member "properties"]) ≠ some (.object []) := by
  have htidy := (tidy_of_constructed hn).of_descendant? h
  obtain ⟨hencode, htoJson⟩ := encode_get?_properties h
  rw [hencode, htoJson]
  cases p with
  | none => exact ⟨nofun, rfl, rfl, nofun, nofun⟩
  | some q =>
    obtain ⟨hne, hkeys⟩ := htidy q rfl
    obtain ⟨hencoded, hcollapsed⟩ := toJson_ne_empty hne
    have hnodup : (keys q).Nodup := by
      cases hkeys with
      | nested hnodup _ => exact hnodup
    refine ⟨?_, ?_, rfl, fun h => hencoded (Option.some.inj h), fun h => hcollapsed (Option.some.inj h)⟩
    · rintro _ ⟨⟩
      exact ⟨hne, hnodup, hkeys⟩
    · simp [hasProperties, hne]

/-- Empty mappings that are loaded deep in a value, that replace others, that are an argument and
that are a builder's step: none of them is in the tree, and none is saved. -/
theorem properties_of_constructed_empties :
    let v := Value.object [("type", .string "ELEMENT"), ("tag", .string "ul"),
      ("children", .array [.object [("type", .string "ELEMENT"), ("properties", .object [])]])]
    let list := Node.element "ul" none (some [.element "div" none none])
    let title : Properties := [(.name "title", .attr (.scalar (.str "b")))]
    let bold := (((Element.bare "b").change (.properties title)).change (.properties [])).toNode
    let par := Node.element "p" none (some [.text "x"])
    let n := ((Builder.start "main").run [.properties [], .child list, .children [bold, par],
      .properties title]).build.toNode
    load v = .ok list ∧ define "p" (some (.properties [])) (some (.text "x")) = .ok par ∧
      n.Constructed ∧ n.descendant? [0, 0] = some (.element "div" none none) ∧
      (Node.element "div" none none).hasProperties = false ∧
      n.toJson.get? (childPath [0, 0] ++ [.member "properties"]) ≠ some (.object []) ∧
      n.descendant? [1] = some (.element "b" none none) ∧
      n.toJson.get? (childPath [1] ++ [.member "properties"]) ≠ some (.object []) := by
  intro v list title bold par n
  have hload : load v = .ok list := rfl
  have hdefine : define "p" (some (.properties [])) (some (.text "x")) = .ok par := rfl
  have hempty : (PropertyValue.nested []).DistinctKeys := .nested .nil nofun
  have hentries : ∀ e ∈ title, e.2.DistinctKeys := List.forall_mem_singleton.2 (.attr _)
  have htitle : (PropertyValue.nested title).DistinctKeys := .nested (by decide) hentries
  have hbold : bold.Constructed := by
    refine .change (.change (.bare "b") ?_ nofun) ?_ nofun
    · rintro p ⟨⟩
      exact htitle
    · rintro p ⟨⟩
      exact hempty
  have hpar : par.Constructed := by
    refine .define (fun a ha => ?_) (fun a ha => ?_) hdefine
    · obtain ⟨⟨⟩⟩ | ⟨⟨⟩⟩ := ha
      · rintro p ⟨⟩
        exact hempty
      · exact nofun
    · obtain ⟨⟨⟩⟩ | ⟨⟨⟩⟩ := ha <;> exact nofun
  have hn : n.Constructed := by
    refine .build "main" ?_ ?_
    · simp only [List.forall_mem_cons, Builder.Step.entries, List.not_mem_nil, false_implies,
        implies_true, true_and, and_true]
      exact hentries
    · simp only [List.forall_mem_cons, Builder.Step.nodes, List.not_mem_nil, false_implies,
        implies_true, true_and, and_true]
      exact ⟨.load hload, hbold, hpar⟩
  have hinner : n.descendant? [0, 0] = some (.element "div" none none) := rfl
  have hsecond : n.descendant? [1] = some (.element "b" none none) := rfl
  obtain ⟨-, hhas, -, -, hjson⟩ := properties_of_constructed hn hinner
  obtain ⟨-, -, -, -, hjson'⟩ := properties_of_constructed hn hsecond
  exact ⟨hload, hdefine, hn, hinner, hhas, hjson, hsecond, hjson'⟩

end Node

end MarkupTree

import MarkupTree.Proofs.Interchange.Accept
import MarkupTree.Proofs.Interchange.Agree

/-!
# What only the exact decoder accepts

The exact decoder is not in all things the stricter one: a node may be a sequence of its type and
its fields, and a type an index, where loading takes objects that name their type (`Value.Tagged`).
That is the only thing that loading refuses of what the exact decoder accepts
(`ofText_of_decodeText`); so there are texts that are decoded and not loaded
(`decodeText_and_not_ofText`).
-/

namespace MarkupTree

open Json OrderedMap

/-- The value is an object that names its type, and if it is an element so are the items of its
member for children. -/
inductive Json.Value.Tagged : Value → Prop
  | text {ms : List (String × Value)} :
    find? "type" ms = some (.string Node.textType) → Tagged (.object ms)
  | element {ms : List (String × Value)} :
    find? "type" ms = some (.string Node.elementType) →
    (∀ items, find? "children" ms = some (.array items) → ∀ v ∈ items, Tagged v) →
    Tagged (.object ms)

namespace Node

/-- If the value is decoded, it is loaded exactly if it is tagged. -/
def LoadedIfTagged (v : Value) : Prop :=
  ∀ {a}, decode v = .ok a → ((∃ n, ofJson v.collapse = .ok n) ↔ v.Tagged)

section Members

variable {ms ms' : List (String × Value)}
  (hfind : ∀ k, find? k ms' = (find? k ms.reverse).map Value.collapse)
include hfind

theorem lookup_type_iff {t : NodeType} (ht : NodeType.ofMembers none ms = .ok t) (name : String) :
    find? "type" ms' = some (.string name) ↔ find? "type" ms = some (.string name) := by
  obtain ⟨hlookup, -⟩ := lookup_of_takeOnce hfind (NodeType.takeOnce_of_ofMembers ht)
  rw [hlookup, Option.map_eq_some_iff]
  constructor
  · rintro ⟨v, hv, hcollapse⟩
    rw [hv, Value.collapse_eq_string_iff.1 hcollapse]
  · exact fun h => ⟨_, h, rfl⟩

theorem loadChildren_iff_tagged {r : Option (Option (List Node))}
    (hnode : ∀ items, find? "children" ms = some (.array items) → ∀ v ∈ items, LoadedIfTagged v)
    (h : takeOnce "children" decodeChildren none ms = .ok r) :
    (∃ cs, loadChildren (find? "children" ms') = .ok cs) ↔
      ∀ items, find? "children" ms = some (.array items) → ∀ v ∈ items, v.Tagged := by
  obtain ⟨hlookup, hr⟩ := lookup_of_takeOnce hfind h
  rw [hlookup]
  generalize find? "children" ms = m at hnode hr
  cases hr with
  | none => exact iff_of_true ⟨_, rfl⟩ nofun
  | @some v cs hcs =>
    cases v with
    | null => exact iff_of_true ⟨_, rfl⟩ nofun
    | bool | number | string | object => cases hcs
    | array items =>
      rw [decodeChildren] at hcs
      obtain ⟨ns, hns, -⟩ := bind_ok_iff.1 hcs
      have hdecode : ∀ v ∈ items, ∃ n, decode v = .ok n := by
        intro v hv
        obtain ⟨n, -, hn⟩ := exists_mem_of_forall₂ (decodeAll_ok_iff.1 hns).flip hv
        exact ⟨n, hn⟩
      rw [Option.map_some, Value.collapse_array, loadChildren_ok_iff]
      constructor
      · rintro ⟨-, hload⟩ _ ⟨⟩ v hv
        obtain ⟨n, hn⟩ := hdecode v hv
        exact (hnode items rfl v hv hn).1 (hload _ rfl _ (List.mem_map_of_mem hv))
      · intro htagged
        refine ⟨.inr ⟨_, rfl⟩, ?_⟩
        rintro _ ⟨⟩ w hw
        obtain ⟨v, hv, rfl⟩ := List.mem_map.1 hw
        obtain ⟨n, hn⟩ := hdecode v hv
        exact (hnode items rfl v hv hn).2 (htagged items rfl v hv)

theorem loadElement_iff_tagged {a : Node}
    (hnode : ∀ items, find? "children" ms = some (.array items) → ∀ v ∈ items, LoadedIfTagged v)
    (ha : ofMembers .element ms = .ok a) :
    (∃ n, loadElement (find? "tag" ms') (find? "properties" ms') (find? "children" ms') = .ok n) ↔
      ∀ items, find? "children" ms = some (.array items) → ∀ v ∈ items, v.Tagged := by
  obtain ⟨tag, p, cs, hfields, rfl⟩ := ofMembers_element_ok ha
  obtain ⟨htag, hp, hcs⟩ := takeOnce_of_decodeElementMembers hfields
  rw [loadElement_isOk_iff, loadChildren_iff_tagged hfind hnode hcs, lookup_string hfind htag,
    properties_of_lookup hfind hp]
  exact ⟨fun h => h.2.2, fun h => ⟨⟨tag, rfl⟩, ⟨_, rfl⟩, h⟩⟩

end Members

/-- **What is decoded is loaded exactly if it is tagged.** -/
theorem loadedIfTagged (v : Value) : LoadedIfTagged v := by
  induction v using Value.nodeInduction with
  | object ms ih =>
    intro a ha
    obtain ⟨ms', hcollapse, hfind⟩ := Value.collapse_object_find? ms
    rw [decode_object] at ha
    obtain ⟨t, ht, ha⟩ := bind_ok_iff.1 ha
    rw [hcollapse]
    constructor
    · rintro ⟨n, hn⟩
      rcases ofJson_object_ok hn with ⟨hname, -⟩ | ⟨hname, hload⟩
      · exact .text ((lookup_type_iff hfind ht _).1 hname)
      · cases type_of_lookup hfind ht hname
        exact .element ((lookup_type_iff hfind ht _).1 hname)
          ((loadElement_iff_tagged hfind ih ha).1 ⟨n, hload⟩)
    · intro htagged
      cases htagged with
      | text htype =>
        have hname := (lookup_type_iff hfind ht _).2 htype
        rw [ofJson_object, hname]
        exact ⟨_, rfl⟩
      | element htype hchildren =>
        have hname := (lookup_type_iff hfind ht _).2 htype
        cases type_of_lookup hfind ht hname
        rw [ofJson_element hname]
        exact (loadElement_iff_tagged hfind ih ha).2 hchildren
  | other v hv =>
    intro a _
    refine iff_of_false ?_ ?_
    · rintro ⟨n, hn⟩
      obtain ⟨ms, hms⟩ := exists_of_ofJson_ok hn
      cases v with
      | object ms => exact hv ms rfl
      | null | bool | number | string | array => cases hms
    · intro h
      cases h <;> exact hv _ rfl

/-! ## Texts -/

theorem ofText_error {text : String} {v : Value} (hread : Value.read text = .ok v)
    (h : ¬∃ n, ofJson v.collapse = .ok n) : ∃ f, ofText text = .error f ∧ f.kind = .render := by
  have hload : ¬∃ n, load v = .ok n := fun ⟨n, hn⟩ => h ⟨n, load_ok_iff_ofJson.1 hn⟩
  obtain ⟨f, hf, hkind⟩ := (load_error_iff v).2 hload
  refine ⟨f.withSource sourceName text none, ?_, hkind⟩
  rw [ofText, hread]
  simp only [hf]

/-- **Of what is decoded just that is loaded in which all nodes are objects that name their types**,
and as the same tree, without the empty mappings of elements. All else is a fault of the tree. -/
theorem ofText_of_decodeText {text : String} {a : Node} (h : decodeText text = .ok a) :
    ∃ v, Value.read text = .ok v ∧
      (v.Tagged → ofText text = .ok (a.mapProperties dropEmpty)) ∧
      (¬v.Tagged → ∃ f, ofText text = .error f ∧ f.kind = .render) := by
  obtain ⟨v, hread, hdecode⟩ := decodeText_ok h
  refine ⟨v, hread, fun htagged => ?_, fun hnot => ?_⟩
  · obtain ⟨n, hn⟩ := (loadedIfTagged v hdecode).2 htagged
    rw [← readAlike v hdecode hn]
    exact ofText_ok_iff.2 ⟨v, hread, hn⟩
  · exact ofText_error hread fun hn => hnot ((loadedIfTagged v hdecode).1 hn)

/-- A sequence among the children, with an empty mapping. -/
theorem ofText_of_decodeText_sequence :
    let v := Value.object
      [("type", .string "ELEMENT"), ("tag", .string "P"),
        ("children", .array [.array [.string "ELEMENT", .string "b", .object []]])]
    decodeText v.text = .ok (.element "P" none (some [.element "b" (some []) none])) ∧
      Value.read v.text = .ok v ∧ ¬v.Tagged ∧ ∃ f, ofText v.text = .error f ∧ f.kind = .render := by
  intro v
  have hintegral : v.Integral := by
    refine .object ?_
    simp only [List.forall_mem_cons]
    refine ⟨.string _, .string _, .array ?_, nofun⟩
    simp only [List.forall_mem_singleton]
    refine .array ?_
    simp only [List.forall_mem_cons]
    exact ⟨.string _, .string _, .object nofun, nofun⟩
  have hdepth : v.depth ≤ maxDepth := by decide
  have hdecode : decodeText v.text =
      .ok (.element "P" none (some [.element "b" (some []) none])) :=
    decodeText_tagged rfl (by decide) rfl hintegral hdepth rfl
  have hread : Value.read v.text = .ok v := read_text hintegral hdepth
  have hnot : ¬v.Tagged := by
    intro h
    change Value.Tagged (.object _) at h
    cases h with
    | text htype => exact absurd (Value.string.inj (Option.some.inj htype)) (by decide)
    | element _ hchildren => cases hchildren _ rfl _ List.mem_cons_self
  obtain ⟨w, hw, -, herror⟩ := ofText_of_decodeText hdecode
  cases hread.symm.trans hw
  exact ⟨hdecode, hread, hnot, herror hnot⟩

/-- **A sequence is a node for the exact decoder, and none when it is loaded.** -/
theorem decodeText_and_not_ofText :
    decodeText "[\"TEXT\",\"hi\"]" = .ok (.text "hi") ∧
    (∃ f, ofText "[\"TEXT\",\"hi\"]" = .error f ∧ f.kind = .render ∧
      f.message = "root: root type must be ELEMENT or TEXT, found a JSON array") ∧
    ¬∀ text a, decodeText text = .ok a → ∃ b, ofText text = .ok b := by
  have htext : "[\"TEXT\",\"hi\"]" = (Value.array [.string "TEXT", .string "hi"]).text := by
    decide +kernel
  have hdecode : decodeText "[\"TEXT\",\"hi\"]" = .ok (.text "hi") := by
    rw [htext, decodeText, decodeWith, Value.text, String.toList_ofList]
    rfl
  have hread : Value.read "[\"TEXT\",\"hi\"]" = .ok (.array [.string "TEXT", .string "hi"]) := by
    rw [htext, Value.read, Value.text, String.toList_ofList]
    rfl
  have hload : ∃ f, ofText "[\"TEXT\",\"hi\"]" = .error f ∧ f.kind = .render ∧
      f.message = "root: root type must be ELEMENT or TEXT, found a JSON array" := by
    rw [ofText, hread]
    exact ⟨_, rfl, rfl, by decide +kernel⟩
  refine ⟨hdecode, hload, fun h => ?_⟩
  obtain ⟨b, hb⟩ := h _ _ hdecode
  obtain ⟨f, hf, -⟩ := hload
  cases hb.symm.trans hf

end Node

end MarkupTree

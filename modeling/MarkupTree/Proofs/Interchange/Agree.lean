import MarkupTree.Proofs.Interchange.Decode
import MarkupTree.Proofs.Interchange.Fields
import MarkupTree.Proofs.Interchange.Strict

/-!
# The two readings of a text

A text can be decoded exactly (`Node.decodeText`) or loaded (`Node.ofText`). What both accept they
read as the same tree, but that loading drops the empty mappings of elements (`readAlike`,
`ofText_eq_of_decodeText`), and these do not show in the written form. Fields that the exact decoder
takes are the ones that loading finds, in a map that keeps the last value of each key; a property
that it reads has no `null` in it that loading would change (`ofJson?_blankNulls_collapse`).
-/

namespace MarkupTree

open Json OrderedMap

/-! ## Properties -/

theorem Scalar.blankNulls_collapse {v : Value} (h : (ofJson? v).isSome) :
    v.collapse.blankNulls = v := by
  cases v with
  | bool | number | string => rfl
  | null | array | object => simp [ofJson?_eq] at h

/-- A value that is read as it stands is read as the same when it is loaded. -/
theorem PropertyValue.ofJson?_blankNulls_collapse {v : Value} {w : PropertyValue}
    (h : ofJson? v = some w) : ofJson? v.collapse.blankNulls = some w := by
  induction v using Value.induction generalizing w with
  | null => cases h
  | bool | number | string => exact h
  | array items =>
    have hitems : ∀ v ∈ items, (Scalar.ofJson? v).isSome := by
      rw [← mapM_isSome_iff]
      rw [ofJson?, AttributeValue.ofJson?, Option.map_map] at h
      obtain ⟨scalars, hscalars, -⟩ := Option.map_eq_some_iff.1 h
      rw [hscalars]
      rfl
    have hsame : items.map (Value.blankNulls ∘ Value.collapse) = items :=
      (List.map_congr_left fun v hv => Scalar.blankNulls_collapse (hitems v hv)).trans
        (List.map_id items)
    simp [hsame, h]
  | object ms ih =>
    rw [ofJson?] at h
    obtain ⟨p, hp, rfl⟩ := Option.map_eq_some_iff.1 h
    obtain ⟨g, hg, rfl⟩ := Properties.ofMembers?_eq_some hp
    have hvalues : ∀ e ∈ ofEntries ms,
        ofJson? ((Value.blankNulls ∘ Value.collapse) e.2) = some (g e.2) := fun e he =>
      ih e (mem_of_mem_ofEntries he) (hg e (mem_of_mem_ofEntries he))
    rw [Value.collapse_object, Value.blankNulls_object, List.map_map, Prod.map_comp_map, ofJson?,
      Function.id_comp, Properties.ofMembers?_map hvalues, ← ofEntries_map name_injective,
      extend_ofEntries]
    rfl

namespace Node

/-- An empty mapping of an element is as good as none. -/
def dropEmpty : Option Properties → Option Properties
  | none => none
  | some p => if p.isEmpty then none else some p

theorem loadProperties_of_decode {v : Value} {p : Option Properties}
    (h : decodeProperties v = .ok p) : loadProperties (some v.collapse) = .ok (dropEmpty p) := by
  by_cases hv : v = .null
  · subst hv
    cases h
    rfl
  · rw [decodeProperties] at h
    · obtain ⟨q, hq, h⟩ := bind_ok_iff.1 h
      cases h
      exact loadProperties_of_ofJson (Properties.ofJson_ok_iff.2
        (PropertyValue.ofJson?_blankNulls_collapse (Properties.ofJson_ok_iff.1 hq)))
    · exact hv

/-! ## Nodes -/

/-- If the value is decoded and loaded, then as the same tree, without the empty mappings of
elements where it is loaded. -/
def ReadAlike (v : Value) : Prop :=
  ∀ {a b}, decode v = .ok a → ofJson v.collapse = .ok b → b = a.mapProperties dropEmpty

theorem map_dropEmpty_of_forall₂ {vs : List Value} {ns ms : List Node}
    (h : ∀ v ∈ vs, ReadAlike v)
    (hns : List.Forall₂ (fun v n => decode v = .ok n) vs ns)
    (hms : List.Forall₂ (fun v m => ofJson v.collapse = .ok m) vs ms) :
    ms = ns.map (mapProperties dropEmpty) := by
  induction hns generalizing ms with
  | nil =>
    cases hms
    rfl
  | cons hn _ ih =>
    cases hms with
    | cons hm hms =>
      rw [List.map_cons, h _ List.mem_cons_self hn hm,
        ih (fun v hv => h v (List.mem_cons_of_mem _ hv)) hms]

theorem loadChildren_of_decode {v : Value} {cs ds : Option (List Node)}
    (h : ∀ items, v = .array items → ∀ w ∈ items, ReadAlike w)
    (hdecode : decodeChildren v = .ok cs) (hload : loadChildren (some v.collapse) = .ok ds) :
    ds = cs.map (List.map (mapProperties dropEmpty)) := by
  cases v with
  | null =>
    cases hdecode
    cases hload
    rfl
  | array items =>
    rw [decodeChildren] at hdecode
    obtain ⟨ns, hns, hdecode⟩ := bind_ok_iff.1 hdecode
    cases hdecode
    rw [Value.collapse_array, loadChildren, childrenOfJson] at hload
    obtain ⟨ms, hms, hload⟩ := bind_ok_iff.1 hload
    cases hload
    rw [ofJsonFrom_ok_iff, List.forall₂_map_left_iff] at hms
    exact congrArg some (map_dropEmpty_of_forall₂ (h items rfl) (decodeAll_ok_iff.1 hns) hms)
  | bool | number | string | object => cases hdecode

/-! ## Members that are taken and members that are looked up -/

section Members

variable {ms ms' : List (String × Value)}
  (hfind : ∀ k, find? k ms' = (find? k ms.reverse).map Value.collapse)
include hfind

/-- What is taken once is looked up as the map that it makes. -/
theorem lookup_of_takeOnce {α : Type} {k : String} {decode : Value → Except Mismatch α}
    {r : Option α} (h : takeOnce k decode none ms = .ok r) :
    find? k ms' = (find? k ms).map Value.collapse ∧
      Option.Rel (fun v a => decode v = .ok a) (find? k ms) r := by
  obtain ⟨hlast, hr⟩ := takeOnce_none h
  exact ⟨by rw [hfind, hlast], hr⟩

theorem lookup_string {k s : String} (h : takeOnce k decodeString none ms = .ok (some s)) :
    find? k ms' = some (.string s) := by
  obtain ⟨hlookup, hr⟩ := lookup_of_takeOnce hfind h
  rw [hlookup]
  generalize find? k ms = m at hr
  cases hr with
  | some hs =>
    rw [decodeString_ok_iff.1 hs]
    rfl

theorem type_of_lookup {t : NodeType} {name : String} (ht : NodeType.ofMembers none ms = .ok t)
    (hname : find? "type" ms' = some (.string name)) : NodeType.ofName name = .ok t := by
  obtain ⟨hlookup, hr⟩ := lookup_of_takeOnce hfind (NodeType.takeOnce_of_ofMembers ht)
  rw [hlookup] at hname
  obtain ⟨v, hv, hcollapse⟩ := Option.map_eq_some_iff.1 hname
  obtain rfl := Value.collapse_eq_string_iff.1 hcollapse
  rw [hv] at hr
  obtain ⟨h⟩ := hr
  exact h

theorem properties_of_lookup {r : Option (Option Properties)}
    (h : takeOnce "properties" decodeProperties none ms = .ok r) :
    loadProperties (find? "properties" ms') = .ok (dropEmpty (r.getD none)) := by
  obtain ⟨hlookup, hr⟩ := lookup_of_takeOnce hfind h
  rw [hlookup]
  generalize find? "properties" ms = m at hr
  cases hr with
  | none => rfl
  | some hp => exact loadProperties_of_decode hp

theorem children_of_lookup {r : Option (Option (List Node))} {ds : Option (List Node)}
    (hnode : ∀ items, find? "children" ms = some (.array items) → ∀ v ∈ items, ReadAlike v)
    (h : takeOnce "children" decodeChildren none ms = .ok r)
    (hload : loadChildren (find? "children" ms') = .ok ds) :
    ds = (r.getD none).map (List.map (mapProperties dropEmpty)) := by
  obtain ⟨hlookup, hr⟩ := lookup_of_takeOnce hfind h
  rw [hlookup] at hload
  generalize find? "children" ms = m at hnode hr hload
  cases hr with
  | none =>
    cases hload
    rfl
  | some hcs =>
    exact loadChildren_of_decode (fun items hitems => hnode items (congrArg some hitems)) hcs hload

theorem text_of_decode {a : Node} (ha : ofMembers .text ms = .ok a) :
    a = .text (loadText (find? "value" ms')) := by
  obtain ⟨s, hs, rfl⟩ := takeOnce_of_decodeTextMembers ha
  rw [lookup_string hfind hs]
  rfl

theorem element_of_decode {a b : Node}
    (hnode : ∀ items, find? "children" ms = some (.array items) → ∀ v ∈ items, ReadAlike v)
    (ha : ofMembers .element ms = .ok a)
    (hb : loadElement (find? "tag" ms') (find? "properties" ms') (find? "children" ms') = .ok b) :
    b = a.mapProperties dropEmpty := by
  obtain ⟨tag, p, cs, hfields, rfl⟩ := ofMembers_element_ok ha
  obtain ⟨htag, hp, hcs⟩ := takeOnce_of_decodeElementMembers hfields
  obtain ⟨tag', p', cs', htag', hp', hcs', rfl⟩ := loadElement_ok_iff.1 hb
  rw [lookup_string hfind htag] at htag'
  cases htag'
  rw [properties_of_lookup hfind hp] at hp'
  cases hp'
  simp [children_of_lookup hfind hnode hcs hcs']

end Members

/-- **Every value is read alike.** -/
theorem readAlike (v : Value) : ReadAlike v := by
  induction v using Value.nodeInduction with
  | object ms ih =>
    intro a b ha hb
    obtain ⟨ms', hcollapse, hfind⟩ := Value.collapse_object_find? ms
    rw [hcollapse] at hb
    rw [decode_object] at ha
    obtain ⟨t, ht, ha⟩ := bind_ok_iff.1 ha
    rcases ofJson_object_ok hb with ⟨hname, rfl⟩ | ⟨hname, hb⟩
    · cases type_of_lookup hfind ht hname
      rw [text_of_decode hfind ha, mapProperties]
    · cases type_of_lookup hfind ht hname
      exact element_of_decode hfind ih ha hb
  | other v hv =>
    intro a b _ hb
    obtain ⟨ms, hms⟩ := exists_of_ofJson_ok hb
    cases v with
    | object ms => exact absurd rfl (hv ms)
    | null | bool | number | string | array => cases hms

/-! ## Texts -/

theorem render_dropEmpty (n : Node) (options : RenderOptions) :
    render (n.mapProperties dropEmpty) options = render n options := by
  refine render_mapProperties (P := fun _ => True) (fun p _ tag => ?_) (.of_forall (fun _ => trivial) n)
  cases p with
  | none => rfl
  | some q =>
    rw [dropEmpty]
    split
    · rename_i h
      simp [RenderOptions.openTag, h]
    · rfl

/-- **What both readings of a text accept they read as the same tree**, but that loading drops the
empty mappings of elements; so both trees have the same written form. -/
theorem ofText_eq_of_decodeText {text : String} {a b : Node} (ha : decodeText text = .ok a)
    (hb : ofText text = .ok b) :
    b = a.mapProperties dropEmpty ∧ ∀ options, render b options = render a options := by
  obtain ⟨v, hread, hload⟩ := ofText_ok_iff.1 hb
  have htree : b = a.mapProperties dropEmpty := by
    cases v with
    | object ms => exact readAlike _ (decode_of_decodeText hread ha) hload
    | null | bool | number | string | array => cases hload
  refine ⟨htree, fun options => ?_⟩
  rw [htree, render_dropEmpty]

/-- A member that nobody knows, a property key that is given twice, an empty nested mapping, `null`
for children, and an empty mapping, which is dropped. -/
theorem ofText_eq_of_decodeText_mixed :
    let v := Value.object
      [("type", .string "ELEMENT"), ("note", .array [.null]),
        ("properties", .object
          [("id", .number (.natural 1)), ("class", .array [.string "a", .bool true]),
            ("id", .number (.negative (-3))), ("data", .object [])]),
        ("tag", .string "DIV"),
        ("children", .array
          [.object [("value", .string "hi"), ("type", .string "TEXT")],
            .object [("properties", .object []), ("tag", .string "br"),
              ("children", .null), ("type", .string "ELEMENT")]])]
    let p : Properties :=
      [(.name "id", .attr (.scalar (.int (-3)))),
        (.name "class", .attr (.list [.str "a", .bool true])), (.name "data", .nested [])]
    let a := Node.element "DIV" (some p) (some [.text "hi", .element "br" (some []) none])
    let b := Node.element "DIV" (some p) (some [.text "hi", .element "br" none none])
    decodeText v.text = .ok a ∧ ofText v.text = .ok b ∧ b = a.mapProperties dropEmpty ∧
      ∀ options, render b options = render a options := by
  intro v p a b
  have hintegral : v.Integral := by
    refine .object ?_
    simp only [List.forall_mem_cons]
    refine ⟨.string _, .array ?_, .object ?_, .string _, .array ?_, nofun⟩
    · simp only [List.forall_mem_cons]
      exact ⟨.null, nofun⟩
    · simp only [List.forall_mem_cons]
      refine ⟨.number trivial, .array ?_, .number (by decide : (-3 : Int64).toInt < 0),
        .object nofun, nofun⟩
      simp only [List.forall_mem_cons]
      exact ⟨.string _, .bool _, nofun⟩
    · simp only [List.forall_mem_cons]
      refine ⟨.object ?_, .object ?_, nofun⟩
      · simp only [List.forall_mem_cons]
        exact ⟨.string _, .string _, nofun⟩
      · simp only [List.forall_mem_cons]
        exact ⟨.object nofun, .string _, .null, .string _, nofun⟩
  have hdepth : v.depth ≤ maxDepth := by decide +kernel
  have ha : decodeText v.text = .ok a :=
    decodeText_tagged rfl (by decide) rfl hintegral hdepth rfl
  have hb : ofText v.text = .ok b := ofText_ok_iff.2 ⟨v, read_text hintegral hdepth, rfl⟩
  exact ⟨ha, hb, ofText_eq_of_decodeText ha hb⟩

end Node

end MarkupTree

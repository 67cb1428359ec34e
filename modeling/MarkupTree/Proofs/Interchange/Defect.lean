import MarkupTree.Proofs.Interchange.Grammar

/-!
# The first malformed node

`Value.nodes` walks the nodes of a value in reading order, each with the path to it: a node, then
the nodes of its children one after the other. `Value.IsMalformed` says of a node by itself that it
is malformed, and `Node.defect?` what is wrong with it (`defect?_isSome_iff`). Loading fails exactly
with the first malformed node of the walk and its defect (`failure?_ofJson`); what comes after that
node in the walk has no part in the error (`load_error_iff_first_malformed`).
-/

namespace MarkupTree.Json.Value

open OrderedMap

/-! ## The walk -/

/-- Whether the members say that the object is an element. -/
def saysElement (members : List (String × Value)) : Bool :=
  match find? "type" members with
  | some (.string type) => type == "ELEMENT"
  | _ => false

mutual

/-- The nodes of a value in reading order, each after the places among the children on the way to
it. Only an element has nodes below it. -/
def nodes : Value → List (List Nat × Value)
  | .object members =>
    ([], .object members) :: if saysElement members then nodesOfMembers members else []
  | v => [([], v)]

def nodesOfMembers : List (String × Value) → List (List Nat × Value)
  | [] => []
  | (k, v) :: members => if k = "children" then nodesOfChildren v else nodesOfMembers members

def nodesOfChildren : Value → List (List Nat × Value)
  | .array items => nodesFrom 0 items
  | _ => []

/-- The nodes of items of which the first is child `i`. -/
def nodesFrom (i : Nat) : List Value → List (List Nat × Value)
  | [] => []
  | v :: vs => v.nodes.map (fun e => (i :: e.1, e.2)) ++ nodesFrom (i + 1) vs

end

/-- What is malformed about a node, taken by itself: it is no object, it does not say which node it
is, or one of the members of an element is not of its form. -/
inductive IsMalformed : Value → Prop
  | notObject {v : Value} : (∀ members, v ≠ .object members) → IsMalformed v
  | type {members : List (String × Value)} : find? "type" members ≠ some (.string "ELEMENT") →
    find? "type" members ≠ some (.string "TEXT") → IsMalformed (.object members)
  | tag {members : List (String × Value)} : find? "type" members = some (.string "ELEMENT") →
    ¬(Absent (find? "tag" members) ∨ ∃ s, find? "tag" members = some (.string s)) →
    IsMalformed (.object members)
  | properties {members : List (String × Value)} :
    find? "type" members = some (.string "ELEMENT") →
    ¬(Absent (find? "properties" members) ∨
      ∃ entries, find? "properties" members = some (.object entries) ∧
        ∀ e ∈ entries, e.2.IsProperty) →
    IsMalformed (.object members)
  | children {members : List (String × Value)} : find? "type" members = some (.string "ELEMENT") →
    ¬(Absent (find? "children" members) ∨
      ∃ items, find? "children" members = some (.array items)) →
    IsMalformed (.object members)

theorem nodesOfMembers_eq (ms : List (String × Value)) :
    nodesOfMembers ms = (find? "children" ms).elim [] nodesOfChildren := by
  induction ms with
  | nil => rfl
  | cons e ms ih =>
    rw [nodesOfMembers, find?]
    by_cases h : e.1 = "children"
    · rw [if_pos h, if_pos h]; rfl
    · rw [if_neg h, if_neg h, ih]

end MarkupTree.Json.Value

namespace MarkupTree.Node

open Json OrderedMap

/-! ## The defect of a node -/

/-- What is wrong with the member for children, whatever the children are. -/
def childrenDefect? : Option Value → Option Defect
  | none | some .null | some (.array _) => none
  | some v => some (.childrenNotArray v.kind)

/-- What is wrong with an element, by its members for tag, properties and children. -/
def elementDefect? (tag properties children : Option Value) : Option Defect :=
  (failure? (loadTag tag)).or <| (failure? (loadProperties properties)).or (childrenDefect? children)

/-- What is wrong with a node, taken by itself. -/
def defect? : Value → Option Defect
  | .object members =>
    match find? "type" members with
    | none => some .noType
    | some (.string type) =>
      if type = elementType then
        elementDefect? (find? "tag" members) (find? "properties" members)
          (find? "children" members)
      else if type = textType then none
      else some (.unknownType type)
    | some v => some (.typeNotString v.kind)
  | v => some (.notObject v.kind)

/-- The first node of a walk that has a defect. -/
def firstMalformed (walk : List (List Nat × Value)) : Option Malformed :=
  walk.findSome? fun e => (defect? e.2).map (Malformed.mk e.1)

theorem childrenDefect?_eq_none_iff {children : Option Value} :
    childrenDefect? children = none ↔
      Value.Absent children ∨ ∃ items, children = some (.array items) := by
  match children with
  | none => simp [childrenDefect?, Value.Absent]
  | some v => cases v <;> simp [childrenDefect?, Value.Absent]

theorem elementDefect?_eq_none_iff {tag properties children : Option Value} :
    elementDefect? tag properties children = none ↔
      (Value.Absent tag ∨ ∃ s, tag = some (.string s)) ∧
      (Value.Absent properties ∨
        ∃ entries, properties = some (.object entries) ∧ ∀ e ∈ entries, e.2.IsProperty) ∧
      (Value.Absent children ∨ ∃ items, children = some (.array items)) := by
  simp [elementDefect?, loadTag_ok_iff, loadProperties_ok_iff, childrenDefect?_eq_none_iff]

theorem defect?_element {ms : List (String × Value)}
    (h : find? "type" ms = some (.string "ELEMENT")) : defect? (.object ms) =
      elementDefect? (find? "tag" ms) (find? "properties" ms) (find? "children" ms) := by
  rw [defect?, h]
  rfl

theorem defect?_text {ms : List (String × Value)} (h : find? "type" ms = some (.string "TEXT")) :
    defect? (.object ms) = none := by
  rw [defect?, h]
  rfl

theorem defect?_untyped {ms : List (String × Value)}
    (he : find? "type" ms ≠ some (.string "ELEMENT"))
    (ht : find? "type" ms ≠ some (.string "TEXT")) : (defect? (.object ms)).isSome := by
  rw [defect?]
  split
  · rfl
  · rename_i type htype
    have hne : type ≠ elementType := fun h => he (htype.trans (by rw [h]; rfl))
    have hnt : type ≠ textType := fun h => ht (htype.trans (by rw [h]; rfl))
    rw [if_neg hne, if_neg hnt]
    rfl
  · rfl

/-- **A node has a defect exactly if it is malformed.** -/
theorem defect?_isSome_iff (v : Value) : (defect? v).isSome ↔ v.IsMalformed := by
  cases v with
  | object ms =>
    by_cases he : find? "type" ms = some (.string "ELEMENT")
    · rw [defect?_element he, Option.isSome_iff_ne_none, ne_eq, elementDefect?_eq_none_iff]
      constructor
      · intro h
        by_cases htag : Value.Absent (find? "tag" ms) ∨ ∃ s, find? "tag" ms = some (.string s)
        · by_cases hp : Value.Absent (find? "properties" ms) ∨ ∃ entries,
              find? "properties" ms = some (.object entries) ∧ ∀ e ∈ entries, e.2.IsProperty
          · exact .children he fun hc => h ⟨htag, hp, hc⟩
          · exact .properties he hp
        · exact .tag he htag
      · rintro h ⟨htag, hp, hc⟩
        cases h with
        | notObject h => exact h ms rfl
        | type h => exact h he
        | tag _ h => exact h htag
        | properties _ h => exact h hp
        | children _ h => exact h hc
    · by_cases ht : find? "type" ms = some (.string "TEXT")
      · rw [defect?_text ht]
        refine iff_of_false Bool.false_ne_true fun h => ?_
        cases h with
        | notObject h => exact h ms rfl
        | type _ h => exact h ht
        | tag h | properties h | children h => exact he h
      · exact iff_of_true (defect?_untyped he ht) (.type he ht)
  | null | bool | number | string | array => exact iff_of_true rfl (.notObject nofun)

/-! ## The error of loading -/

theorem firstMalformed_cons (path : List Nat) (v : Value) (walk : List (List Nat × Value)) :
    firstMalformed ((path, v) :: walk) =
      ((defect? v).map (Malformed.mk path)).or (firstMalformed walk) := by
  rw [firstMalformed, List.findSome?_cons]
  cases defect? v <;> rfl

theorem firstMalformed_under (i : Nat) (walk : List (List Nat × Value)) :
    firstMalformed (walk.map fun e => (i :: e.1, e.2)) =
      (firstMalformed walk).map (Malformed.under i) := by
  rw [firstMalformed, firstMalformed, List.findSome?_map, List.map_findSome?]
  congr 1
  funext e
  cases h : defect? e.2 <;> simp [h, Malformed.under]

theorem failure?_ofJsonFrom {vs : List Value}
    (h : ∀ v ∈ vs, failure? (ofJson v) = firstMalformed v.nodes) (i : Nat) :
    failure? (ofJsonFrom i vs) = firstMalformed (Value.nodesFrom i vs) := by
  induction vs generalizing i with
  | nil => rfl
  | cons v vs ih =>
    have hv := h v List.mem_cons_self
    have hmore := ih (fun w hw => h w (List.mem_cons_of_mem _ hw)) (i + 1)
    have hwalk : firstMalformed (Value.nodesFrom i (v :: vs)) =
        ((failure? (ofJson v)).map (Malformed.under i)).or (failure? (ofJsonFrom (i + 1) vs)) := by
      rw [Value.nodesFrom, firstMalformed, List.findSome?_append, ← firstMalformed,
        ← firstMalformed, firstMalformed_under, hv, hmore]
    rw [hwalk, ofJsonFrom]
    cases ofJson v with
    | error m => rfl
    | ok n => exact failure?_bind_pure _ _

theorem failure?_loadChildren {children : Option Value}
    (h : ∀ items, children = some (.array items) → ∀ v ∈ items,
      failure? (ofJson v) = firstMalformed v.nodes) :
    failure? (loadChildren children) = ((childrenDefect? children).map (Malformed.mk [])).or
      (firstMalformed (children.elim [] Value.nodesOfChildren)) := by
  match children with
  | none => rfl
  | some (.array items) =>
    rw [loadChildren, childrenOfJson, failure?_bind_pure, failure?_ofJsonFrom (h items rfl)]
    rfl
  | some .null | some (.bool _) | some (.number _) | some (.string _) | some (.object _) => rfl

/-- All that an element says by itself is looked at before its children. -/
theorem failure?_loadElement (tag properties : Option Value) {children : Option Value}
    (h : ∀ items, children = some (.array items) → ∀ v ∈ items,
      failure? (ofJson v) = firstMalformed v.nodes) :
    failure? (loadElement tag properties children) =
      ((elementDefect? tag properties children).map (Malformed.mk [])).or
        (firstMalformed (children.elim [] Value.nodesOfChildren)) := by
  have hchildren := failure?_loadChildren h
  rw [loadElement, elementDefect?]
  cases loadTag tag with
  | error d => rfl
  | ok t =>
    cases loadProperties properties with
    | error d => rfl
    | ok p => exact (failure?_bind_pure _ _).trans hchildren

/-- **Loading fails with the first malformed node of the walk**, and only there. -/
theorem failure?_ofJson (v : Value) : failure? (ofJson v) = firstMalformed v.nodes := by
  induction v using Value.nodeInduction with
  | object ms ih =>
    by_cases he : find? "type" ms = some (.string "ELEMENT")
    · have hsays : Value.saysElement ms = true := by simp [Value.saysElement, he]
      rw [ofJson_element he, Value.nodes, if_pos hsays, firstMalformed_cons, defect?_element he,
        Value.nodesOfMembers_eq]
      exact failure?_loadElement _ _ ih
    · have hsays : Value.saysElement ms = false := by
        rw [Value.saysElement]
        split
        · rename_i type htype
          exact beq_eq_false_iff_ne.2 fun h => he (htype.trans (by rw [h]))
        · rfl
      rw [Value.nodes, hsays, firstMalformed_cons, ofJson_object, defect?]
      cases htype : find? "type" ms with
      | none => rfl
      | some v =>
        cases v with
        | string type =>
          have hne : type ≠ elementType := fun h => he (htype.trans (by rw [h]; rfl))
          simp only [if_neg hne]
          split <;> rfl
        | _ => rfl
  | other v hv =>
    cases v with
    | object ms => exact absurd rfl (hv ms)
    | _ => rfl

theorem load_eq_error_iff {v : Value} {f : Fault} :
    load v = .error f ↔ ∃ m, firstMalformed v.collapse.nodes = some m ∧ f = m.toFault := by
  rw [load_error_iff_ofJson]
  refine exists_congr fun m => and_congr_left fun _ => ?_
  rw [← failure?_eq_some_iff, failure?_ofJson]

/-- The first malformed node of a walk, with what stands before and after it. -/
theorem firstMalformed_eq_some_iff {walk : List (List Nat × Value)} {m : Malformed} :
    firstMalformed walk = some m ↔ ∃ before node after, walk = before ++ (m.path, node) :: after ∧
      (∀ e ∈ before, ¬e.2.IsMalformed) ∧ node.IsMalformed ∧ defect? node = some m.defect := by
  have hwell : ∀ e : List Nat × Value,
      (defect? e.2).map (Malformed.mk e.1) = none ↔ ¬e.2.IsMalformed := by
    intro e
    rw [Option.map_eq_none_iff, ← Option.not_isSome_iff_eq_none, defect?_isSome_iff]
  rw [firstMalformed, List.findSome?_eq_some_iff]
  constructor
  · rintro ⟨before, e, after, hwalk, he, hbefore⟩
    obtain ⟨why, hwhy, rfl⟩ := Option.map_eq_some_iff.1 he
    refine ⟨before, e.2, after, hwalk, fun d hd => (hwell d).1 (hbefore d hd), ?_, hwhy⟩
    rw [← defect?_isSome_iff, hwhy]
    rfl
  · rintro ⟨before, node, after, hwalk, hbefore, -, hwhy⟩
    refine ⟨before, (m.path, node), after, hwalk, ?_, fun d hd => (hwell d).2 (hbefore d hd)⟩
    rw [hwhy]
    rfl

/-- The path of a node in words: the root, then the place among the children at each step. -/
theorem pathText_eq (path : List Nat) : Malformed.pathText path =
    "root" ++ String.join (path.map fun i => ".children[" ++ toString i ++ "]") := by
  have h : ∀ text : String,
      path.foldl (fun text i => text ++ ".children[" ++ toString i ++ "]") text =
        text ++ String.join (path.map fun i => ".children[" ++ toString i ++ "]") := by
    induction path with
    | nil => simp
    | cons i path ih =>
      intro text
      rw [List.foldl_cons, ih]
      simp [String.append_assoc]
  exact h "root"

/-- **An error of loading names the first malformed node in reading order**: the path to it and what
is wrong with it make the whole of the error, whatever comes after that node. The error of a text is
that of its value, with the text and no place in it. -/
theorem load_error_iff_first_malformed (v : Value) (f : Fault) :
    (load v = .error f ↔ ∃ before path node after why,
      v.collapse.nodes = before ++ (path, node) :: after ∧ (∀ e ∈ before, ¬e.2.IsMalformed) ∧
      node.IsMalformed ∧ defect? node = some why ∧
      f = {
        kind := .render
        message := "root" ++ String.join (path.map fun i => ".children[" ++ toString i ++ "]") ++
          ": " ++ why.message
        help := why.help?
        cause := why.cause? }) ∧
    (load v = .error f → ∀ text, Value.read text = .ok v → ∃ g, ofText text = .error g ∧
      g.kind = f.kind ∧ g.message = f.message ∧ g.help = f.help ∧ g.cause = f.cause ∧
      g.source = some ⟨"ast.json", text, none⟩ ∧ g.mark? = none) := by
  refine ⟨?_, fun h text hread => ?_⟩
  · simp only [load_eq_error_iff, firstMalformed_eq_some_iff]
    constructor
    · rintro ⟨m, ⟨before, node, after, hwalk, hbefore, hnode, hwhy⟩, rfl⟩
      refine ⟨before, m.path, node, after, m.defect, hwalk, hbefore, hnode, hwhy, ?_⟩
      rw [Malformed.toFault, pathText_eq]
    · rintro ⟨before, path, node, after, why, hwalk, hbefore, hnode, hwhy, rfl⟩
      refine ⟨⟨path, why⟩, ⟨before, node, after, hwalk, hbefore, hnode, hwhy⟩, ?_⟩
      rw [Malformed.toFault, pathText_eq]
  · refine ⟨f.withSource sourceName text none, ?_, rfl, rfl, rfl, rfl, rfl, rfl⟩
    rw [ofText, hread]
    simp only [h]

/-- Of three malformed nodes, two of them below or after the first one, the first one is named. -/
theorem load_error_second_child :
    let v := Value.object
      [("type", .string "ELEMENT"),
        ("children", .array
          [.object [("type", .string "TEXT")],
            .object [("type", .string "ELEMENT"), ("tag", .bool true), ("children", .array [.null])],
            .object []])]
    let f : Fault := {
      kind := .render
      message := "root.children[1]: element tag must be a string, found a JSON bool" }
    (∃ before path node after why, v.collapse.nodes = before ++ (path, node) :: after ∧
      (∀ e ∈ before, ¬e.2.IsMalformed) ∧ node.IsMalformed ∧ defect? node = some why ∧
      f.message = "root" ++ String.join (path.map fun i => ".children[" ++ toString i ++ "]") ++
        ": " ++ why.message) ∧
    Value.read v.text = .ok v ∧ ∃ g, ofText v.text = .error g ∧ g.message = f.message ∧
      g.source = some ⟨"ast.json", v.text, none⟩ ∧ g.mark? = none := by
  intro v f
  have hload : load v = .error f := rfl
  have hread : Value.read v.text = .ok v := by
    rw [Value.read, Value.text, String.toList_ofList]
    rfl
  obtain ⟨hiff, htext⟩ := load_error_iff_first_malformed v f
  obtain ⟨before, path, node, after, why, hwalk, hbefore, hnode, hwhy, hf⟩ := hiff.1 hload
  obtain ⟨g, hg, -, hmessage, -, -, hsource, hmark⟩ := htext hload v.text hread
  exact ⟨⟨before, path, node, after, why, hwalk, hbefore, hnode, hwhy, congrArg Fault.message hf⟩,
    hread, g, hg, hmessage, hsource, hmark⟩

end MarkupTree.Node

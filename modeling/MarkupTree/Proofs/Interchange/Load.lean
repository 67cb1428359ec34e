import MarkupTree.Proofs.Interchange.Property
import MarkupTree.Proofs.Outcome
import MarkupTree.Proofs.Tree
import Mathlib.Data.List.Forall2

/-!
# What loading looks at

Loading an object goes by the members of five names (`ofJson_object`), and what is loaded says that
it is a text or an element (`ofJson_object_ok`). Of an element it takes the tag, the properties and
the children, and fails where one of them does (`loadElement_ok_iff`); in a value with repeated keys
these are the last ones (`element_of_ofJson`). The items of an array of children are loaded one by
one, wherever they stand (`ofJsonFrom_ok_iff`). A text is loaded if its value is (`ofText_ok_iff`).
-/

namespace MarkupTree.Node

open Json OrderedMap

/-- The children that the member for them stands for, if there is one. -/
def loadChildren : Option Value → Except Malformed (Option (List Node))
  | none => .ok none
  | some v => childrenOfJson v

theorem childrenOfMembers_eq (ms : List (String × Value)) :
    childrenOfMembers ms = loadChildren (find? "children" ms) := by
  induction ms with
  | nil => rfl
  | cons e ms ih =>
    rw [childrenOfMembers, find?]
    by_cases h : e.1 = "children"
    · rw [if_pos h, if_pos h]; rfl
    · rw [if_neg h, if_neg h, ih]

/-- The element that the members for tag, properties and children stand for. -/
def loadElement (tag properties children : Option Value) : Except Malformed Node := do
  let tag ← (loadTag tag).mapError .here
  let properties ← (loadProperties properties).mapError .here
  let children ← loadChildren children
  return .element tag properties children

/-- Loading an object looks at the members of five names. -/
theorem ofJson_object (ms : List (String × Value)) : ofJson (.object ms) =
    match find? "type" ms with
    | none => .error (.here .noType)
    | some (.string type) =>
      if type = elementType then
        loadElement (find? "tag" ms) (find? "properties" ms) (find? "children" ms)
      else if type = textType then .ok (.text (loadText (find? "value" ms)))
      else .error (.here (.unknownType type))
    | some v => .error (.here (.typeNotString v.kind)) := by
  rw [ofJson, childrenOfMembers_eq]
  rfl

theorem ofJson_element {ms : List (String × Value)}
    (h : find? "type" ms = some (.string elementType)) : ofJson (.object ms) =
      loadElement (find? "tag" ms) (find? "properties" ms) (find? "children" ms) := by
  rw [ofJson_object, h]
  rfl

/-- An object that is loaded says that it is a text or an element. -/
theorem ofJson_object_ok {ms : List (String × Value)} {n : Node}
    (h : ofJson (.object ms) = .ok n) :
    (find? "type" ms = some (.string textType) ∧ n = .text (loadText (find? "value" ms))) ∨
    (find? "type" ms = some (.string elementType) ∧
      loadElement (find? "tag" ms) (find? "properties" ms) (find? "children" ms) = .ok n) := by
  rw [ofJson_object] at h
  split at h
  · cases h
  · rename_i type htype
    split at h
    · rename_i he
      exact .inr ⟨htype.trans (by rw [he]), h⟩
    · split at h
      · rename_i ht
        exact .inl ⟨htype.trans (by rw [ht]), (Except.ok.inj h).symm⟩
      · cases h
  · cases h

theorem exists_of_ofJson_ok {v : Value} {n : Node} (h : ofJson v = .ok n) :
    ∃ ms, v = .object ms := by
  cases v with
  | object ms => exact ⟨ms, rfl⟩
  | _ => cases h

theorem ofJson_elementMembers (tag : String) (p c : Option Value) :
    ofJson (.object (elementMembers tag p c)) = loadElement (some (.string tag)) p c := by
  obtain ⟨htype, htag, hp, hc⟩ := find?_elementMembers tag p c
  rw [ofJson_element htype, htag, hp, hc]

theorem loadProperties_of_ofJson {v : Value} {p : Properties}
    (h : Properties.ofJson v.blankNulls = .ok p) :
    loadProperties (some v) = .ok (if p.isEmpty then none else some p) := by
  cases v with
  | null => cases h
  | _ => simp only [loadProperties, h]

theorem loadProperties_ok {v : Value} {p : Option Properties} (hv : v ≠ .null)
    (h : loadProperties (some v) = .ok p) :
    ∃ q, Properties.ofJson v.blankNulls = .ok q ∧ p = if q.isEmpty then none else some q := by
  rw [loadProperties] at h
  · cases hq : Properties.ofJson v.blankNulls with
    | error why => rw [hq] at h; cases h
    | ok q =>
      rw [hq] at h
      exact ⟨q, rfl, (Except.ok.inj h).symm⟩
  · exact hv

/-- The properties of an element were read from the member for them, and there is one at least. -/
theorem loadProperties_some {m : Option Value} {p : Properties}
    (h : loadProperties m = .ok (some p)) :
    p ≠ [] ∧ ∃ v, m = some v ∧ Properties.ofJson v.blankNulls = .ok p := by
  unfold loadProperties at h
  split at h
  · cases h
  · cases h
  · rename_i v _
    split at h
    · rename_i q hq
      split at h
      · cases h
      · rename_i hne
        obtain rfl : q = p := Option.some.inj (Except.ok.inj h)
        exact ⟨fun hnil => hne (by rw [hnil]; rfl), v, rfl, hq⟩
    · cases h

theorem loadElement_ok_iff {tag properties children : Option Value} {n : Node} :
    loadElement tag properties children = .ok n ↔ ∃ t p cs, loadTag tag = .ok t ∧
      loadProperties properties = .ok p ∧ loadChildren children = .ok cs ∧ n = .element t p cs := by
  simp only [loadElement, bind_ok_iff, mapError_ok_iff, pure_ok, Except.ok.injEq]
  constructor
  · rintro ⟨t, ht, p, hp, cs, hcs, rfl⟩
    exact ⟨t, p, cs, ht, hp, hcs, rfl⟩
  · rintro ⟨t, p, cs, ht, hp, hcs, rfl⟩
    exact ⟨t, ht, p, hp, cs, hcs, rfl⟩

/-- Items are loaded one by one; their places only show in errors. -/
theorem ofJsonFrom_ok_iff {i : Nat} {vs : List Value} {ns : List Node} :
    ofJsonFrom i vs = .ok ns ↔ List.Forall₂ (fun v n => ofJson v = .ok n) vs ns := by
  induction vs generalizing i ns with
  | nil => cases ns <;> simp [ofJsonFrom]
  | cons v vs ih =>
    rw [ofJsonFrom]
    cases hv : ofJson v with
    | error m => cases ns <;> simp [hv]
    | ok n =>
      simp only [bind_ok_iff, pure_ok, Except.ok.injEq, ih]
      constructor
      · rintro ⟨more, hmore, rfl⟩
        exact .cons hv hmore
      · rintro (_ | ⟨hn, hmore⟩)
        obtain rfl : n = _ := Except.ok.inj (hv.symm.trans hn)
        exact ⟨_, hmore, rfl⟩

theorem ofJsonFrom_map {f : Node → Value} {g : Node → Node} {ns : List Node}
    (h : ∀ n ∈ ns, ofJson (f n) = .ok (g n)) (i : Nat) :
    ofJsonFrom i (ns.map f) = .ok (ns.map g) := by
  rw [ofJsonFrom_ok_iff, List.forall₂_map_left_iff, List.forall₂_map_right_iff, List.forall₂_same]
  exact h

@[simp] theorem childrenOfJson_array (items : List Value) :
    childrenOfJson (.array items) = some <$> ofJsonFrom 0 items := by
  rw [childrenOfJson]
  cases ofJsonFrom 0 items <;> rfl

theorem loadChildren_some {c : Option Value} {ns : List Node}
    (h : loadChildren c = .ok (some ns)) : ∃ items, c = some (.array items) ∧
      List.Forall₂ (fun v n => ofJson v = .ok n) items ns := by
  match c, h with
  | none, h => cases h
  | some (.array items), h =>
    rw [loadChildren, childrenOfJson] at h
    obtain ⟨more, hmore, hns⟩ := bind_ok_iff.1 h
    obtain rfl : more = ns := Option.some.inj (Except.ok.inj hns)
    exact ⟨items, rfl, ofJsonFrom_ok_iff.1 hmore⟩
  | some .null, h | some (.bool _), h | some (.number _), h | some (.string _), h
  | some (.object _), h => cases h

/-- What is loaded as an element is an object, and what it has last for properties and children is
loaded as those of the element. -/
theorem element_of_ofJson {v : Value} {tag : String} {p : Option Properties}
    {cs : Option (List Node)} (h : ofJson v.collapse = .ok (.element tag p cs)) :
    ∃ ms, v = .object ms ∧
      loadProperties ((find? "properties" ms.reverse).map Value.collapse) = .ok p ∧
      loadChildren ((find? "children" ms.reverse).map Value.collapse) = .ok cs := by
  cases v with
  | null | bool | number | string | array => cases h
  | object ms =>
    obtain ⟨ms', hcollapse, hfind⟩ := Value.collapse_object_find? ms
    rw [hcollapse] at h
    rcases ofJson_object_ok h with ⟨-, htext⟩ | ⟨-, h⟩
    · cases htext
    · obtain ⟨_, _, _, _, hp, hcs, helement⟩ := loadElement_ok_iff.1 h
      cases helement
      rw [hfind] at hp hcs
      exact ⟨ms, rfl, hp, hcs⟩

/-! ## Values and texts -/

theorem load_ok_iff_ofJson {v : Value} {n : Node} : load v = .ok n ↔ ofJson v.collapse = .ok n := by
  rw [load]
  cases ofJson v.collapse <;> simp

theorem load_error_iff_ofJson {v : Value} {f : Fault} :
    load v = .error f ↔ ∃ m, ofJson v.collapse = .error m ∧ f = m.toFault := by
  rw [load]
  cases ofJson v.collapse <;> simp [eq_comm]

theorem ofText_ok_iff {text : String} {n : Node} :
    ofText text = .ok n ↔ ∃ v, Value.read text = .ok v ∧ ofJson v.collapse = .ok n := by
  rw [ofText]
  cases Value.read text with
  | error h => simp
  | ok v =>
    simp only [Except.ok.injEq, exists_eq_left', ← load_ok_iff_ofJson]
    cases load v <;> simp

theorem ofText_parse {text : String} (h : (Value.read text).isOk = false) :
    ∃ f, ofText text = .error f ∧ f.kind = .parse := by
  unfold ofText
  cases hread : Value.read text with
  | ok v => rw [hread] at h; cases h
  | error e => exact ⟨_, rfl, rfl⟩

end MarkupTree.Node

import MarkupTree.Proofs.Attribute
import MarkupTree.Proofs.Interchange.Load
import MarkupTree.Proofs.Json.Outline

/-!
# Places in a document and in its tree

What stands somewhere in the tree was loaded from what stands there in the value: a node from the
value at the same places among the children (`descendant?_of_ofJson`), and a property value from the
one under the names that are its keys (`PropertyValue.get?_of_ofJson?`, `properties_of_ofJson`).
-/

namespace MarkupTree

open Json OrderedMap

/-! ## Mappings -/

/-- The way through members with these keys. -/
def keyPath (keys : List String) : List Step := keys.map .member

theorem PropertyValue.get?_of_ofJson? {v u : Value} {w : PropertyValue} {ks : List String}
    (h : ofJson? v = some w) (hv : v.get? (keyPath ks) = some u) :
    ∃ x, w.get? ks = some x ∧ ofJson? u = some x := by
  induction ks generalizing v w with
  | nil =>
    rw [keyPath, List.map_nil, Value.get?_nil] at hv
    cases hv
    exact ⟨w, get?_nil w, h⟩
  | cons k ks ih =>
    cases v with
    | null | bool | number | string | array => simp [keyPath, Value.get?] at hv
    | object ms =>
      obtain ⟨v', hv', hu⟩ := Option.bind_eq_some_iff.1 hv
      rw [ofJson?] at h
      obtain ⟨p, hp, rfl⟩ := Option.map_eq_some_iff.1 h
      obtain ⟨g, hg, rfl⟩ := Properties.ofMembers?_eq_some hp
      have hentry : ofJson? v' = some (g v') := hg _ (List.mem_reverse.1 (mem_of_find? hv'))
      obtain ⟨x, hx, hxu⟩ := ih hentry hu
      refine ⟨x, ?_, hxu⟩
      have hfind : find? (.name k) (extend [] (ms.map (Prod.map PropertyKey.name g))) =
          some (g v') := by
        rw [find?_extend, ← List.map_reverse, find?_map_of_injective name_injective, hv']
        rfl
      rw [get?, hfind]
      exact hx

/-! ## Nodes -/

/-- The way from a node to one below it, by places among the children. -/
def childPath (path : List Nat) : List Step := path.flatMap fun i => [.member "children", .item i]

namespace Node

theorem items_of_ofJson {v : Value} {tag : String} {p : Option Properties} {ns : List Node}
    (h : ofJson v.collapse = .ok (.element tag p (some ns))) : ∃ items,
      v.get? [.member "children"] = some (.array items) ∧
      List.Forall₂ (fun w n => ofJson w.collapse = .ok n) items ns := by
  obtain ⟨ms, rfl, -, hcs⟩ := element_of_ofJson h
  obtain ⟨items', hitems', hns⟩ := loadChildren_some hcs
  obtain ⟨w, hw, hcollapse⟩ := Option.map_eq_some_iff.1 hitems'
  cases w with
  | null | bool | number | string | object => cases hcollapse
  | array items =>
    rw [Value.collapse_array] at hcollapse
    cases hcollapse
    refine ⟨items, ?_, List.forall₂_map_left_iff.1 hns⟩
    simp [Value.get?, hw]

/-- Nodes are loaded from the values at their places. -/
theorem descendant?_of_ofJson {v : Value} {n m : Node} {path : List Nat}
    (h : ofJson v.collapse = .ok n) (hm : n.descendant? path = some m) :
    ∃ u, v.get? (childPath path) = some u ∧ ofJson u.collapse = .ok m := by
  induction path generalizing v n with
  | nil =>
    rw [descendant?_nil, Option.some_inj] at hm
    exact ⟨v, v.get?_nil, hm ▸ h⟩
  | cons i path ih =>
    obtain ⟨tag, p, before, c, after, rfl, rfl, hbelow⟩ := exists_of_descendant?_cons hm
    obtain ⟨items, hitems, hns⟩ := items_of_ofJson h
    have hc : (before ++ c :: after)[before.length]? = some c := by simp
    obtain ⟨w, hw, hload⟩ := getElem?_of_forall₂ hns hc
    obtain ⟨u, hu, hmu⟩ := ih hload hbelow
    refine ⟨u, ?_, hmu⟩
    have hpath : childPath (before.length :: path) =
        [.member "children"] ++ .item before.length :: childPath path := rfl
    rw [hpath, Value.get?_append, hitems, Option.bind_some, Value.get?, hw]
    exact hu

theorem properties_of_ofJson {v u : Value} {tag : String} {p : Option Properties}
    {cs : Option (List Node)} {k : String} {ks : List String} {more : List Step}
    (h : ofJson v.collapse = .ok (.element tag p cs))
    (hu : v.get? (.member "properties" :: (keyPath (k :: ks) ++ more)) = some u) :
    ∃ q w x, p = some q ∧ (PropertyValue.nested q).get? (k :: ks) = some x ∧
      PropertyValue.ofJson? w = some x ∧ w.get? more = some u.collapse.blankNulls := by
  obtain ⟨ms, rfl, hp, -⟩ := element_of_ofJson h
  obtain ⟨pv, hpv, hu⟩ := Option.bind_eq_some_iff.1 hu
  rw [hpv, Option.map_some] at hp
  have hblank := Value.get?_blankNulls (Value.get?_collapse hu)
  rw [Value.get?_append] at hblank
  obtain ⟨w, hw, hmore⟩ := Option.bind_eq_some_iff.1 hblank
  have hnull : pv.collapse ≠ .null := by
    intro hnull
    rw [hnull] at hw
    cases hw
  obtain ⟨q, hq, rfl⟩ := loadProperties_ok hnull hp
  obtain ⟨x, hx, hxw⟩ := PropertyValue.get?_of_ofJson? (Properties.ofJson_ok_iff.1 hq) hw
  refine ⟨q, w, x, ?_, hx, hxw, hmore⟩
  cases q with
  | nil => cases hx
  | cons e q => rfl

end Node

end MarkupTree

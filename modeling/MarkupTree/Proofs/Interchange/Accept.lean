import MarkupTree.Proofs.Interchange.Grammar

/-!
# What decides about loading

Members that the grammar does not name are not looked at: `Value.trim` drops them in every node, and
the outcome of loading is the same, errors included (`ofJson_trim`). So a value is loaded exactly if
what is left of it is a tree, and a text exactly if the value that it stands for is
(`loads_exactly_trees`). Where the objects of a value are maps, nothing is left out
(`load_ok_iff_of_maps`).
-/

namespace MarkupTree.Json.Value

open OrderedMap

/-! ## Members that are not looked at -/

/-- The members that are looked at in an object of this type. -/
def namesOf : Option Value → List String
  | some (.string type) =>
    if type = "ELEMENT" then ["type", "tag", "properties", "children"]
    else if type = "TEXT" then ["type", "value"]
    else ["type"]
  | _ => ["type"]

mutual

/-- The node without the members that are not looked at, and so the nodes in it. -/
def trim : Value → Value
  | .object members => .object (trimMembers (namesOf (find? "type" members)) members)
  | v => v

/-- The members with one of the names; those for children are trimmed. -/
def trimMembers (names : List String) : List (String × Value) → List (String × Value)
  | [] => []
  | (k, v) :: members =>
    if k ∈ names then (k, if k = "children" then v.trimItems else v) :: trimMembers names members
    else trimMembers names members

def trimItems : Value → Value
  | .array items => .array (trimAll items)
  | v => v

def trimAll : List Value → List Value
  | [] => []
  | v :: vs => v.trim :: trimAll vs

end

@[simp] theorem trimAll_eq (vs : List Value) : trimAll vs = vs.map trim := by
  induction vs with
  | nil => rfl
  | cons v vs ih => rw [trimAll, ih, List.map_cons]

/-- What a member with this name is in the trimmed object. -/
def trimMember (k : String) (v : Value) : Value := if k = "children" then v.trimItems else v

theorem find?_trimMembers {names : List String} {k : String} (hk : k ∈ names)
    (ms : List (String × Value)) :
    find? k (trimMembers names ms) = (find? k ms).map (trimMember k) := by
  induction ms with
  | nil => rfl
  | cons e ms ih =>
    rw [trimMembers]
    by_cases he : e.1 = k
    · subst he
      simp [hk, trimMember]
    · by_cases hn : e.1 ∈ names
      · simpa [hn, he] using ih
      · simpa [hn, he] using ih

theorem find?_trimMembers_of_ne {names : List String} {k : String} (hk : k ∈ names)
    (hne : k ≠ "children") (ms : List (String × Value)) :
    find? k (trimMembers names ms) = find? k ms := by
  have h : trimMember k = id := funext fun v => if_neg hne
  rw [find?_trimMembers hk, h, Option.map_id_fun, id]

theorem type_mem_namesOf (type : Option Value) : "type" ∈ namesOf type := by
  unfold namesOf
  split
  · split
    · simp
    · split <;> simp
  · simp

theorem mem_trimMembers {names : List String} {ms : List (String × Value)} {e : String × Value}
    (h : e ∈ trimMembers names ms) : ∃ d ∈ ms, e = (d.1, trimMember d.1 d.2) := by
  induction ms with
  | nil => cases h
  | cons d ms ih =>
    rw [trimMembers] at h
    split at h
    · rcases List.mem_cons.1 h with rfl | h
      · exact ⟨d, List.mem_cons_self, rfl⟩
      · obtain ⟨f, hf, rfl⟩ := ih h
        exact ⟨f, List.mem_cons_of_mem _ hf, rfl⟩
    · obtain ⟨f, hf, rfl⟩ := ih h
      exact ⟨f, List.mem_cons_of_mem _ hf, rfl⟩

theorem keys_trimMembers (names : List String) (ms : List (String × Value)) :
    keys (trimMembers names ms) = (keys ms).filter (· ∈ names) := by
  induction ms with
  | nil => rfl
  | cons e ms ih =>
    rw [trimMembers]
    by_cases h : e.1 ∈ names <;> simp_all [keys]

theorem collapse_trim {v : Value} (h : v.collapse = v) : v.trim.collapse = v.trim := by
  induction v using nodeInduction with
  | object ms ih =>
    obtain ⟨hn, hms⟩ := collapse_object_eq_self_iff.1 h
    rw [trim, collapse_object_eq_self_iff, keys_trimMembers]
    refine ⟨hn.filter _, fun e he => ?_⟩
    obtain ⟨d, hd, rfl⟩ := mem_trimMembers he
    have hd' := hms d hd
    change (trimMember d.1 d.2).collapse = trimMember d.1 d.2
    unfold trimMember
    split
    · rename_i hk
      have hfind := find?_of_mem hn hd
      cases hv : d.2 with
      | array items =>
        rw [hv] at hd' hfind
        rw [trimItems, trimAll_eq, collapse_array_eq_self_iff, List.forall_mem_map]
        exact fun w hw => ih items (hk ▸ hfind) w hw (collapse_array_eq_self_iff.1 hd' w hw)
      | _ => rw [hv] at hd'; exact hd'
    · exact hd'
  | other v hv =>
    cases v with
    | object ms => exact absurd rfl (hv ms)
    | _ => exact h

end MarkupTree.Json.Value

namespace MarkupTree.Node

open Json OrderedMap

theorem ofJsonFrom_congr {f : Value → Value} {vs : List Value}
    (h : ∀ v ∈ vs, ofJson (f v) = ofJson v) (i : Nat) :
    ofJsonFrom i (vs.map f) = ofJsonFrom i vs := by
  induction vs generalizing i with
  | nil => rfl
  | cons v vs ih =>
    rw [List.map_cons, ofJsonFrom, ofJsonFrom, h v List.mem_cons_self]
    simp only [ih fun w hw => h w (List.mem_cons_of_mem _ hw)]

theorem loadChildren_trimItems {children : Option Value}
    (h : ∀ items, children = some (.array items) → ∀ v ∈ items, ofJson v.trim = ofJson v) :
    loadChildren (children.map Value.trimItems) = loadChildren children := by
  match children with
  | none | some .null | some (.bool _) | some (.number _) | some (.string _) | some (.object _) =>
    rfl
  | some (.array items) =>
    simp [Value.trimItems, loadChildren, ofJsonFrom_congr (h items rfl)]

/-- **Members that are not named are not looked at**: without them a value is loaded with the same
outcome. -/
theorem ofJson_trim (v : Value) : ofJson v.trim = ofJson v := by
  induction v using Value.nodeInduction with
  | object ms ih =>
    rw [Value.trim, ofJson_object, ofJson_object,
      Value.find?_trimMembers_of_ne (Value.type_mem_namesOf _) (by decide)]
    cases find? "type" ms with
    | none => rfl
    | some v =>
      cases v with
      | string type =>
        by_cases he : type = elementType
        · subst he
          have hnames : Value.namesOf (some (.string elementType)) =
              ["type", "tag", "properties", "children"] := rfl
          simp only [hnames, ↓reduceIte]
          rw [Value.find?_trimMembers_of_ne (by simp) (by decide),
            Value.find?_trimMembers_of_ne (by simp) (by decide),
            Value.find?_trimMembers (by simp)]
          have hchildren : Value.trimMember "children" = Value.trimItems :=
            funext fun v => if_pos rfl
          simp only [loadElement, hchildren, loadChildren_trimItems ih]
        · by_cases ht : type = textType
          · subst ht
            have hnames : Value.namesOf (some (.string textType)) = ["type", "value"] := rfl
            simp only [hnames, he, ↓reduceIte]
            rw [Value.find?_trimMembers_of_ne (by simp) (by decide)]
          · simp only [he, ht, ↓reduceIte]
      | _ => rfl
  | other v hv =>
    cases v with
    | object ms => exact absurd rfl (hv ms)
    | _ => rfl

/-! ## Loading and the grammar -/

theorem load_error_iff (v : Value) :
    (∃ f, load v = .error f ∧ f.kind = .render) ↔ ¬∃ n, load v = .ok n := by
  unfold load
  cases ofJson v.collapse with
  | ok n => simp
  | error m => simp [Malformed.toFault]

theorem load_ok_iff (v : Value) : (∃ n, load v = .ok n) ↔ v.collapse.IsTree := by
  rw [← ofJson_ok_iff, load]
  cases ofJson v.collapse <;> simp

theorem load_trim (v : Value) : load v.collapse.trim = load v := by
  rw [load, Value.collapse_trim (Value.collapse_collapse v), ofJson_trim, load]

/-- **A value is loaded exactly if it is a tree, and a text exactly if its value is.** The members
that the grammar does not name have no part in it. -/
theorem loads_exactly_trees :
    (∀ v : Value,
      ((∃ n, load v = .ok n) ↔ v.collapse.IsTree) ∧
      ((∃ f, load v = .error f ∧ f.kind = .render) ↔ ¬v.collapse.IsTree) ∧
      load v.collapse.trim = load v) ∧
    ∀ text : String,
      match Value.read text with
      | .error _ => ∃ f, ofText text = .error f ∧ f.kind = .parse
      | .ok v => (∀ n, ofText text = .ok n ↔ load v = .ok n) ∧
        ((∃ n, ofText text = .ok n) ↔ v.collapse.IsTree) ∧
        ((∃ f, ofText text = .error f ∧ f.kind = .render) ↔ ¬v.collapse.IsTree) := by
  refine ⟨fun v => ⟨load_ok_iff v, ?_, load_trim v⟩, fun text => ?_⟩
  · rw [load_error_iff, load_ok_iff]
  · unfold ofText
    cases hread : Value.read text with
    | error h => exact ⟨_, rfl, rfl⟩
    | ok v =>
      have hok := load_ok_iff v
      have herror := load_error_iff v
      cases hv : load v with
      | ok n => simp_all
      | error f => simp_all [Fault.withSource]

/-- A value whose objects are maps already is loaded exactly if it is itself a tree. -/
theorem load_ok_iff_of_maps {v : Value} (h : v.collapse = v) :
    ((∃ n, load v = .ok n) ↔ v.IsTree) ∧
      ((∃ f, load v = .error f ∧ f.kind = .render) ↔ ¬v.IsTree) ∧ load v.trim = load v := by
  have hok := load_ok_iff v
  have htrim := load_trim v
  rw [h] at hok htrim
  exact ⟨hok, (load_error_iff v).trans (not_congr hok), htrim⟩

/-- A tree with `null` at three places and a member that is not looked at, and the same with a list
in a list. -/
theorem load_ok_iff_of_maps_nulls :
    let value (list : Value) := Value.object
      [("type", .string "ELEMENT"), ("tag", .null),
        ("properties", .object [("data", .object [("x", .null)]), ("y", .array [list])]),
        ("children", .array [.object [("type", .string "TEXT"), ("value", .null)]]),
        ("more", .array [.array []])]
    let v := value .null
    let w := value (.array [])
    v.collapse = v ∧ v.IsTree ∧ v.trim ≠ v ∧ load v.trim = load v ∧
      w.collapse = w ∧ ¬w.IsTree ∧ ∃ f, load w = .error f ∧ f.kind = .render := by
  intro value v w
  have hv : v.collapse = v := rfl
  have hw : w.collapse = w := rfl
  obtain ⟨hok, -, htrim⟩ := load_ok_iff_of_maps hv
  obtain ⟨-, herror, -⟩ := load_ok_iff_of_maps hw
  have hrefused : ∃ f, load w = .error f ∧ f.kind = .render := ⟨_, rfl, rfl⟩
  have hmore : v.trim ≠ v := by
    intro h
    simp [v, value, Value.trim, Value.trimMembers, Value.namesOf] at h
  exact ⟨hv, hok.1 ⟨_, rfl⟩, hmore, htrim, hw, herror.1 hrefused, hrefused⟩

end MarkupTree.Node

import MarkupTree.Proofs.Interchange.Faithful

/-!
# What loading gives

A loaded tree is settled (`Node.Settled`, `settled_of_ofJson`): its keys are names, each set once in
its mapping, its scalars are such as JSON tells apart, and no element has an empty mapping. A
settled tree is just what comes back when it is saved and loaded (`canon_of_settled`). So loading
changes what it has to change at once, and saving and loading again changes nothing
(`load_toJson_of_load`).
-/

namespace MarkupTree

open Json OrderedMap

/-- The scalars that JSON tells apart: no symbol, no natural number that fits a signed integer, no
double that is not finite. -/
def Scalar.Settled : Scalar → Prop
  | .bool _ | .int _ | .str _ => True
  | .uint n => 0x7fffffffffffffff < n.toNat
  | .float x => (Decimal.Binary64.ofFloat x).isFinite
  | .symbol _ => False

/-- In every mapping that the value is or holds the keys are names, each of them set once, and the
scalars in it are settled. -/
inductive PropertyValue.Settled : PropertyValue → Prop
  | attr {a : AttributeValue} : (∀ s ∈ a.scalars, s.Settled) → Settled (.attr a)
  | nested {p : Properties} : (keys p).Nodup → (∀ e ∈ p, ∃ s, e.1 = .name s) →
    (∀ e ∈ p, Settled e.2) → Settled (.nested p)

/-- Every element has settled properties with at least one entry, or none. -/
def Node.Settled (n : Node) : Prop := n.Every fun p => p ≠ [] ∧ (PropertyValue.nested p).Settled

/-! ## Loaded trees are settled -/

theorem Scalar.settled_of_ofJson? {v : Value} {s : Scalar} (h : ofJson? v = some s) :
    s.Settled := by
  rw [ofJson?_eq] at h
  cases v with
  | bool b => cases h; trivial
  | string t => cases h; trivial
  | number n =>
    cases n with
    | natural n =>
      obtain rfl : ofUInt64 n = s := Option.some.inj h
      unfold ofUInt64
      split
      · trivial
      · change 0x7fffffffffffffff < n.toNat
        omega
    | negative n => cases h; trivial
    | float x hx => cases h; exact hx
  | null | array | object => cases h

theorem Scalar.settled_of_mapM {vs : List Value} {items : List Scalar}
    (h : vs.mapM ofJson? = some items) : ∀ s ∈ items, s.Settled := by
  induction vs generalizing items with
  | nil =>
    obtain rfl : [] = items := Option.some.inj h
    exact nofun
  | cons v vs ih =>
    rw [List.mapM_cons] at h
    obtain ⟨s, hs, h⟩ := Option.bind_eq_some_iff.1 h
    obtain ⟨more, hmore, h⟩ := Option.bind_eq_some_iff.1 h
    obtain rfl : s :: more = items := Option.some.inj h
    exact List.forall_mem_cons.2 ⟨settled_of_ofJson? hs, ih hmore⟩

theorem AttributeValue.settled_of_ofJson? {v : Value} {a : AttributeValue}
    (h : ofJson? v = some a) : ∀ s ∈ a.scalars, s.Settled := by
  cases v with
  | array vs =>
    obtain ⟨items, hitems, rfl⟩ := Option.map_eq_some_iff.1 h
    exact Scalar.settled_of_mapM hitems
  | bool | number | string =>
    simp only [ofJson?, Option.map_eq_some_iff] at h
    obtain ⟨s, hs, rfl⟩ := h
    simpa [scalars] using Scalar.settled_of_ofJson? hs
  | null | object => simp [ofJson?, Scalar.ofJson?_eq] at h

theorem Properties.settled_ofEntries {es : List (String × Value)} {g : Value → PropertyValue}
    (h : ∀ e ∈ es, (g e.2).Settled) :
    (PropertyValue.nested (ofEntries (es.map (Prod.map .name g)))).Settled := by
  have hmem : ∀ d ∈ ofEntries (es.map (Prod.map PropertyKey.name g)), ∃ e ∈ es,
      d = (.name e.1, g e.2) := by
    intro d hd
    obtain ⟨e, he, rfl⟩ := List.mem_map.1 (mem_of_mem_ofEntries hd)
    exact ⟨e, he, rfl⟩
  refine .nested (nodup_keys_ofEntries _) (fun d hd => ?_) fun d hd => ?_
  · obtain ⟨e, -, rfl⟩ := hmem d hd
    exact ⟨e.1, rfl⟩
  · obtain ⟨e, he, rfl⟩ := hmem d hd
    exact h e he

theorem PropertyValue.settled_of_ofJson? {v : Value} {w : PropertyValue} (h : ofJson? v = some w) :
    w.Settled := by
  induction v using Value.induction generalizing w with
  | object ms ih =>
    rw [ofJson?] at h
    obtain ⟨p, hp, rfl⟩ := Option.map_eq_some_iff.1 h
    obtain ⟨g, hg, rfl⟩ := Properties.ofMembers?_eq_some hp
    exact Properties.settled_ofEntries fun e he => ih e he (hg e he)
  | array items =>
    rw [ofJson?] at h
    obtain ⟨a, ha, rfl⟩ := Option.map_eq_some_iff.1 h
    exact .attr (AttributeValue.settled_of_ofJson? ha)
  | bool | number | string =>
    rw [ofJson?] at h
    obtain ⟨a, ha, rfl⟩ := Option.map_eq_some_iff.1 h
    exact .attr (AttributeValue.settled_of_ofJson? ha)
  | null => cases h

theorem Properties.settled_of_ofJson {v : Value} {p : Properties} (h : ofJson v = .ok p) :
    (PropertyValue.nested p).Settled :=
  PropertyValue.settled_of_ofJson? (ofJson_ok_iff.1 h)

namespace Node

/-- **A loaded tree is settled.** -/
theorem settled_of_ofJson {v : Value} {n : Node} (h : ofJson v = .ok n) : n.Settled := by
  induction v using Value.nodeInduction generalizing n with
  | object ms ih =>
    rcases ofJson_object_ok h with ⟨-, rfl⟩ | ⟨-, h⟩
    · exact .text _
    · obtain ⟨tag, p, cs, -, hp, hcs, rfl⟩ := loadElement_ok_iff.1 h
      have hproperties : ∀ q ∈ p, q ≠ [] ∧ (PropertyValue.nested q).Settled := by
        rintro q rfl
        obtain ⟨hne, v, -, hq⟩ := loadProperties_some hp
        exact ⟨hne, Properties.settled_of_ofJson hq⟩
      cases cs with
      | none => exact .bare hproperties
      | some ns =>
        obtain ⟨items, hitems, hns⟩ := loadChildren_some hcs
        refine .parent hproperties fun m hm => ?_
        obtain ⟨w, hw, hwm⟩ := exists_mem_of_forall₂ hns hm
        exact ih items hitems w hw hwm
  | other v hv =>
    obtain ⟨ms, rfl⟩ := exists_of_ofJson_ok h
    exact absurd rfl (hv ms)

end Node

/-! ## Settled trees come back as they are -/

theorem Scalar.canon_of_settled {s : Scalar} (h : s.Settled) : s.canon = s := by
  cases s with
  | uint n =>
    change 0x7fffffffffffffff < n.toNat at h
    rw [canon, if_neg (by omega)]
  | float x => exact if_pos h
  | symbol s => cases h
  | bool | int | str => rfl

theorem AttributeValue.canon_of_settled {a : AttributeValue} (h : ∀ s ∈ a.scalars, s.Settled) :
    a.canon = a := by
  cases a with
  | list items =>
    have hitems : items.map Scalar.canon = items.map id :=
      List.map_congr_left fun s hs => Scalar.canon_of_settled (h s hs)
    rw [canon, hitems, List.map_id]
  | scalar s => exact congrArg scalar (Scalar.canon_of_settled (h s List.mem_cons_self))

theorem Properties.canon_of_names {p : Properties} (hkeys : (keys p).Nodup)
    (hnames : ∀ e ∈ p, ∃ s, e.1 = .name s) (hvalues : ∀ e ∈ p, e.2.canon = e.2) :
    Properties.canon p = p := by
  have hentries : canonEntries p = p := by
    rw [canonEntries_eq]
    refine (List.map_congr_left fun e he => ?_).trans (List.map_id p)
    obtain ⟨s, hs⟩ := hnames e he
    have hkey : PropertyKey.name e.1.flat = e.1 := by rw [hs]; rfl
    exact Prod.ext hkey (hvalues e he)
  rw [Properties.canon, hentries, ofEntries_of_nodup hkeys]

theorem PropertyValue.canon_of_settled {v : PropertyValue} (h : v.Settled) : v.canon = v := by
  induction h with
  | attr ha => rw [canon, AttributeValue.canon_of_settled ha]
  | nested hkeys hnames _ ih => exact congrArg nested (Properties.canon_of_names hkeys hnames ih)

theorem Node.canonProperties_of_settled {p : Option Properties}
    (h : ∀ q ∈ p, q ≠ [] ∧ (PropertyValue.nested q).Settled) : canonProperties p = p := by
  cases p with
  | none => rfl
  | some q =>
    obtain ⟨hne, hq⟩ := h q rfl
    rw [canonProperties, if_neg (by simpa using hne)]
    exact congrArg some (PropertyValue.nested.inj (PropertyValue.canon_of_settled hq))

/-- **A settled tree comes back as it is.** -/
theorem Node.canon_of_settled {n : Node} (h : n.Settled) : n.canon = n := by
  induction h with
  | text s => rfl
  | bare hp => rw [canon, canonProperties_of_settled hp]
  | @parent tag p ns hp _ ih =>
    have hns : ns.map canon = ns.map id := List.map_congr_left ih
    simp [canon, canonProperties_of_settled hp, hns]

/-- **Saving and loading a loaded tree changes nothing.** -/
theorem Node.load_toJson_of_load {v : Value} {n : Node} (h : load v = .ok n) :
    load n.toJson = .ok n := by
  have hcollapse : n.toJson.collapse = n.toJson := Value.collapse_collapse _
  have hsettled : n.Settled := settled_of_ofJson (load_ok_iff_ofJson.1 h)
  rw [load, hcollapse, ofJson_toJson, canon_of_settled hsettled]

/-- A missing tag, a key that is given twice, `null` in two places, the greatest natural number, a
fraction and an empty mapping: loading settles them, and they stay. -/
theorem Node.load_toJson_of_load_mixed :
    let v := Value.object
      [("type", .string "ELEMENT"),
        ("properties", .object [("a", .null), ("n", .number (.natural 18446744073709551615)),
          ("a", .array [.number (.negative (-3)), .null]), ("data", .object []),
          ("x", .number (.float 1.5 (by decide +kernel)))]),
        ("children", .array
          [.object [("type", .string "TEXT"), ("value", .number (.natural 7))],
            .object [("type", .string "ELEMENT"), ("tag", .string "br"),
              ("properties", .object []), ("children", .array [])]])]
    let n := Node.element "div"
      (some [(.name "a", .attr (.list [.int (-3), .str ""])),
        (.name "n", .attr (.scalar (.uint 18446744073709551615))), (.name "data", .nested []),
        (.name "x", .attr (.scalar (.float 1.5)))])
      (some [.text "7", .element "br" none (some [])])
    load v = .ok n ∧ load n.toJson = .ok n := by
  intro v n
  have hload : load v = .ok n := rfl
  exact ⟨hload, load_toJson_of_load hload⟩

end MarkupTree

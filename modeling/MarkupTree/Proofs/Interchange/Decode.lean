import MarkupTree.Interchange.DecodeText
import MarkupTree.Proofs.Interchange.Rendering
import MarkupTree.Proofs.Json.Reader

/-!
# The exact reading of saved trees

A saved tree without doubles and with distinct names is decoded, with the properties of every
element as they come back; an empty mapping stays where it was (`decode_encode`). Its text is read
by the reader of nodes with the same outcome (`decodeText_tagged`, `decodeText_serialized`): the
type stands first and is read at once, the other members are read into values and decoded after
that.
-/

namespace MarkupTree

open Json

/-! ## Members after the type -/

theorem NodeType.ofMembers_of_ne {more : List (String × Value)} (h : ∀ e ∈ more, e.1 ≠ "type")
    (t : NodeType) : ofMembers (some t) more = .ok t := by
  induction more with
  | nil => rfl
  | cons e more ih =>
    rw [ofMembers, if_neg (h e List.mem_cons_self)]
    exact ih fun d hd => h d (List.mem_cons_of_mem _ hd)

namespace Node

/-- The type is not among the fields of a node. -/
theorem ofMembers_type (t : NodeType) (v : Value) (more : List (String × Value)) :
    ofMembers t (("type", v) :: more) = ofMembers t more := by
  cases t with
  | element => simp [ofMembers, decodeElementMembers]
  | text => simp [ofMembers, decodeTextMembers]

/-- An object that begins with its type is decoded by the other members. -/
theorem decode_tagged {name : String} {t : NodeType} (hname : NodeType.ofName name = .ok t)
    {more : List (String × Value)} (hmore : ∀ e ∈ more, e.1 ≠ "type") :
    decode (.object (("type", .string name) :: more)) = ofMembers t more := by
  have htype : NodeType.ofMembers none (("type", .string name) :: more) = .ok t := by
    rw [NodeType.ofMembers, if_pos rfl, NodeType.decode, hname]
    exact NodeType.ofMembers_of_ne hmore t
  simp [decode_object, htype, ofMembers_type]

/-! ## Elements -/

theorem decodeProperties_toJson {p : Properties} (hfloat : (PropertyValue.nested p).NoFloat)
    (hnames : (PropertyValue.nested p).DistinctNames) :
    decodeProperties (Properties.toJson p) = .ok (some p.canon) := by
  have h := Properties.ofJson_blankNulls_toJson p
  rw [← PropertyValue.toJson_nested, PropertyValue.collapse_toJson_of_distinct hnames,
    PropertyValue.blankNulls_toJson_of_noFloat hfloat, PropertyValue.toJson_nested] at h
  rw [decodeProperties, h]
  · rfl
  · exact Value.noConfusion

theorem decodeAll_ok_iff {vs : List Value} {ns : List Node} :
    decodeAll vs = .ok ns ↔ List.Forall₂ (fun v n => decode v = .ok n) vs ns := by
  induction vs generalizing ns with
  | nil => cases ns <;> simp [decodeAll]
  | cons v vs ih =>
    simp only [decodeAll, bind_ok_iff, pure_ok, Except.ok.injEq, ih]
    constructor
    · rintro ⟨n, hn, more, hmore, rfl⟩
      exact .cons hn hmore
    · rintro (_ | ⟨hn, hmore⟩)
      exact ⟨_, hn, _, hmore, rfl⟩

theorem decodeAll_map {f : Node → Value} {g : Node → Node} {ns : List Node}
    (h : ∀ n ∈ ns, decode (f n) = .ok (g n)) : decodeAll (ns.map f) = .ok (ns.map g) := by
  rw [decodeAll_ok_iff, List.forall₂_map_left_iff, List.forall₂_map_right_iff, List.forall₂_same]
  exact h

theorem decode_elementMembers (tag : String) {p c : Option Value} {q : Option Properties}
    {cs : Option (List Node)} (hp : p.elim (q = none) fun v => decodeProperties v = .ok q)
    (hc : c.elim (cs = none) fun v => decodeChildren v = .ok cs) :
    decode (.object (elementMembers tag p c)) = .ok (.element tag q cs) := by
  have hmore : ∀ e ∈ (elementMembers tag p c).tail, e.1 ≠ "type" := by
    cases p <;> cases c <;> simp [elementMembers]
  rw [elementMembers, List.tail_cons] at hmore
  rw [elementMembers, decode_tagged (t := .element) rfl hmore]
  cases p <;> cases c <;> simp only [Option.elim] at hp hc <;>
    simp [ofMembers, decodeElementMembers, once, decodeString, ElementFields.toElement,
      Element.toNode, hp, hc]

/-- **A saved tree is decoded**, with the properties that come back; an empty mapping stays. -/
theorem decode_encode {n : Node} (hfloat : n.NoFloat) (hnames : n.DistinctNames) :
    decode n.encode = .ok (n.mapProperties (Option.map Properties.canon)) := by
  have hproperties : ∀ {p : Option Properties},
      (∀ q ∈ p, (PropertyValue.nested q).NoFloat) →
      (∀ q ∈ p, (PropertyValue.nested q).DistinctNames) →
      (p.map Properties.toJson).elim (p.map Properties.canon = none) fun v =>
        decodeProperties v = .ok (p.map Properties.canon) := by
    intro p hf hd
    cases p with
    | none => rfl
    | some q => exact decodeProperties_toJson (hf q rfl) (hd q rfl)
  induction hfloat with
  | text s => rfl
  | bare hf =>
    cases hnames with
    | bare hd =>
      rw [encode_bare, mapProperties]
      exact decode_elementMembers _ (hproperties hf hd) rfl
  | @parent tag p ns hf _ ih =>
    cases hnames with
    | parent hd hchildren =>
      rw [encode_parent, mapProperties, mapPropertiesAll_eq]
      refine decode_elementMembers _ (hproperties hf hd) ?_
      rw [Option.elim, decodeChildren, decodeAll_map fun n hn => ih n hn (hchildren n hn)]
      rfl

/-! ## Texts -/

/-- The parts with one more member. -/
def Parts.add (parts : Parts) (e : String × Value) : Parts :=
  { parts with members := e :: parts.members }

theorem Parts.foldl_add (more : List (String × Value)) (parts : Parts) :
    more.foldl add parts = { parts with members := more.reverse ++ parts.members } := by
  induction more generalizing parts with
  | nil => rfl
  | cons e more ih =>
    rw [List.foldl_cons, ih]
    simp [add]

theorem partText_before {turns depth : Nat} {e : String × Value} {r : List Char}
    (he : e.1 ≠ "type") (hvalue : value turns depth (e.2.before r) = .ok (e.2, r))
    (parts : Parts) :
    partText turns depth parts e.1 (':' :: e.2.before r) = .ok (parts.add e, r) := by
  rw [partText, if_neg he, addMember_before hvalue]
  rfl

theorem partText_type {turns depth : Nat} {name : String} {t : NodeType}
    (hname : NodeType.ofName name = .ok t) (r : List Char) :
    partText turns depth {} "type" (':' :: stringBefore name r) = .ok ({ type := some t }, r) := by
  change (stringBody (name.toList.flatMap escapedChar ++ '"' :: r) >>= fun v =>
    place (NodeType.ofName v.1) v.2 true) >>= _ = _
  rw [stringBody_escaped, ok_bind, hname]
  rfl

/-- An object that begins with its type is read as it is decoded. -/
theorem reader_tagged {turns depth : Nat} {name : String} {t : NodeType}
    (hname : NodeType.ofName name = .ok t) {more : List (String × Value)}
    (hmore : ∀ e ∈ more, e.1 ≠ "type")
    (hread : Value.Readable (fun n => n.ReadsAs n) turns (depth + 1)
      (.object (("type", .string name) :: more)))
    (rest : List Char) :
    reader turns (depth + 1) ((Value.object (("type", .string name) :: more)).before rest) =
      place (decode (.object (("type", .string name) :: more))) rest false := by
  cases hread with
  | object hturns hread =>
    rw [List.length_cons] at hturns
    obtain ⟨turns, rfl⟩ := Nat.exists_eq_add_one_of_ne_zero (Nat.ne_zero_of_lt hturns)
    -- The step for the type is taken at once; the walk collects the members after it.
    have hparts : members (partText (turns + 1) depth) turns false { type := some t }
        (Value.membersBefore ('\x7d' :: rest) more) =
          .ok ({ type := some t, members := more.reverse }, rest) := by
      rw [members_membersBefore Parts.add (fun e he parts r hr => partText_before (hmore e he)
        (value_before (hread e (List.mem_cons_of_mem _ he)) hr) parts)
        (Nat.lt_of_succ_lt_succ hturns), Parts.foldl_add]
      simp
    have hobject : objectText (turns + 1) depth (stringBefore "type" (':' :: stringBefore name
        (Value.membersBefore ('\x7d' :: rest) more))) = .ok (ofMembers t more, rest) := by
      rw [objectText, members_step turns (nextKey_first _ _) (partText_type hname _), hparts]
      simp
    rw [Value.before, decode_tagged hname hmore]
    change (Except.mapError Halt.leaveObject (objectText (turns + 1) depth _)) >>= _ = _
    rw [Value.before, hobject]
    rfl

theorem encode_eq_tagged (n : Node) : ∃ name t more, NodeType.ofName name = .ok t ∧
    (∀ e ∈ more, e.1 ≠ "type") ∧ n.encode = .object (("type", .string name) :: more) := by
  cases n with
  | text s => exact ⟨textType, .text, _, rfl, by simp, rfl⟩
  | element tag p children =>
    cases children with
    | none =>
      refine ⟨elementType, .element, _, rfl, ?_, rfl⟩
      cases p <;> simp [propertiesMember]
    | some ns =>
      refine ⟨elementType, .element, _, rfl, ?_, rfl⟩
      cases p <;> simp [propertiesMember]

/-- **The text of an object that begins with its type is decoded as the object is**, if numbers in
it are integers and it nests no deeper than is read. -/
theorem decodeText_tagged {name : String} {t : NodeType} (hname : NodeType.ofName name = .ok t)
    {more : List (String × Value)} (hmore : ∀ e ∈ more, e.1 ≠ "type") {v : Value}
    (hv : v = .object (("type", .string name) :: more)) (hintegral : v.Integral)
    (hdepth : v.depth ≤ maxDepth) {a : Node} (ha : decode v = .ok a) :
    decodeText v.text = .ok a := by
  have hreads := hintegral.imp fun n hn => hn.readsAs
  have hsize := Value.size_le_length_before (fun n hn => hn.text_ne_nil) hreads []
  have hread := Value.readable_of hreads (Nat.le_succ_of_le hsize) hdepth
  have hreader : reader ((v.before []).length + 1) maxDepth (v.before []) = .ok (a, []) := by
    subst hv
    exact (reader_tagged hname hmore hread []).trans (by rw [ha]; rfl)
  rw [decodeText, decodeWith, Value.text, String.toList_ofList, readAll, hreader]
  rfl

/-- **The text of a tree is read as the tree is decoded.** -/
theorem decodeText_serialized {n : Node} (hfloat : n.NoFloat) (hnames : n.DistinctNames)
    (hdepth : n.encode.depth ≤ maxDepth) :
    decodeText n.serialized = .ok (n.mapProperties (Option.map Properties.canon)) := by
  obtain ⟨name, t, more, hname, hmore, hencode⟩ := encode_eq_tagged n
  exact decodeText_tagged hname hmore hencode (integral_encode hfloat) hdepth
    (decode_encode hfloat hnames)

end Node

end MarkupTree

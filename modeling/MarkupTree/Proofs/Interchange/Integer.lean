import MarkupTree.Proofs.Interchange.Faithful
import MarkupTree.Proofs.Interchange.Grammar
import MarkupTree.Proofs.Interchange.Place
import MarkupTree.Proofs.Render

/-!
# Integers on the way from the text to the markup

An integer of sixty-four bits in the properties of an element stays the integer that it is: its
decimal form in the text is read as the number for it (`plainValue_integer`), the number is stored
as a scalar in the signed case where it fits and in the unsigned one above (`Scalar.Holds`), and the
scalar is written as the decimal form again. Where it stands in the text is where it stands in the
tree: places in the outline of the text are places in the value, nodes are loaded at the places of
their values (`descendant?_of_ofJson`), and property values under the names that are their keys
(`PropertyValue.get?_of_ofJson?`).

The outline may be read to any depth, so it is there for documents that are too deep for
`Value.read` too: integers are kept up to the depth that texts are read (`ofText_integers`), and
beyond it nothing is loaded (`ofText_error_deep`).
-/

namespace MarkupTree

open Json OrderedMap

/-! ## Scalars -/

/-- The scalar is the integer, signed where that fits and unsigned above. -/
def Scalar.Holds (s : Scalar) (z : Int) : Prop :=
  (z ≤ 0x7fffffffffffffff ∧ ∃ n : Int64, s = .int n ∧ n.toInt = z) ∨
  (0x7fffffffffffffff < z ∧ ∃ n : UInt64, s = .uint n ∧ n.toNat = z)

namespace Scalar

theorem Holds.text {s : Scalar} {z : Int} (h : s.Holds z) : s.text = toString z := by
  rcases h with ⟨-, n, rfl, rfl⟩ | ⟨-, n, rfl, hn⟩
  · rfl
  · rw [Scalar.text, ← hn]
    rfl

theorem ofJson?_integer {z : Int} (hz : Fits z) :
    ∃ s, ofJson? (.number (.ofInteger z)) = some s ∧ s.Holds z := by
  unfold Number.ofInteger
  split
  · rename_i hneg
    refine ⟨_, rfl, .inl ⟨by omega, _, rfl, ?_⟩⟩
    exact toInt_ofInt ⟨hz.1, by omega⟩
  · rename_i hpos
    have hn := toNat_ofNat_toNat (by omega) hz
    refine ⟨_, ofJson?_eq _, ?_⟩
    unfold ofUInt64
    rw [hn]
    split
    · rename_i hsmall
      refine .inl ⟨by omega, _, rfl, ?_⟩
      rw [UInt64.toInt64_ofNat', Int64.toInt_ofNat_of_lt (by omega)]
      omega
    · exact .inr ⟨by omega, _, rfl, by omega⟩

theorem mapM_ofJson?_integers {zs : List Int} (hzs : ∀ z ∈ zs, Fits z) :
    ∃ ss, (zs.map fun z => Value.number (.ofInteger z)).mapM ofJson? = some ss ∧
      ss.map text = zs.map toString := by
  induction zs with
  | nil => exact ⟨[], rfl, rfl⟩
  | cons z zs ih =>
    rw [List.forall_mem_cons] at hzs
    obtain ⟨s, hs, hholds⟩ := ofJson?_integer hzs.1
    obtain ⟨ss, hss, htexts⟩ := ih hzs.2
    refine ⟨s :: ss, ?_, ?_⟩
    · rw [List.map_cons, List.mapM_cons, hs, hss]
      rfl
    · rw [List.map_cons, List.map_cons, hholds.text, htexts]

end Scalar

/-! ## Attribute values -/

/-- The scalar of a value that is one, or the item of a sequence with this place. -/
def AttributeValue.scalarAt? : AttributeValue → Option Nat → Option Scalar
  | .scalar s, none => some s
  | .list items, some i => items[i]?
  | _, _ => none

/-- The way to an item of a sequence, or to a scalar itself. -/
def itemPath (item : Option Nat) : List Step := item.toList.map .item

theorem AttributeValue.parts_of_scalarAt? {a : AttributeValue} {item : Option Nat} {s : Scalar}
    (h : a.scalarAt? item = some s) : a.parts[item.getD 0]? = some s.text := by
  cases a with
  | scalar t =>
    cases item with
    | some i => cases h
    | none =>
      cases h
      rfl
  | list items =>
    cases item with
    | none => cases h
    | some i =>
      have hi : items[i]? = some s := h
      rw [parts, Option.getD_some, List.getElem?_map, hi]
      rfl

theorem getElem?_of_mapM {α β : Type} {f : α → Option β} {l : List α} {r : List β}
    (h : l.mapM f = some r) (i : Nat) : r[i]? = l[i]?.bind f := by
  induction l generalizing r i with
  | nil =>
    cases h
    rfl
  | cons a l ih =>
    rw [List.mapM_cons] at h
    obtain ⟨b, hb, h⟩ := Option.bind_eq_some_iff.1 h
    obtain ⟨bs, hbs, h⟩ := Option.bind_eq_some_iff.1 h
    cases h
    cases i with
    | zero => exact hb.symm
    | succ i => exact ih hbs i

theorem PropertyValue.holds_of_ofJson? {v : Value} {w : PropertyValue} {item : Option Nat} {z : Int}
    (hz : Fits z) (h : ofJson? v = some w)
    (hv : v.get? (itemPath item) = some (.number (.ofInteger z))) :
    ∃ a s, w = .attr a ∧ a.scalarAt? item = some s ∧ s.Holds z := by
  obtain ⟨s, hs, hholds⟩ := Scalar.ofJson?_integer hz
  cases item with
  | none =>
    obtain rfl : v = .number (.ofInteger z) := by simpa [itemPath, Value.get?_nil] using hv
    rw [ofJson?_of_attribute (AttributeValue.ofJson?_of_scalar hs)] at h
    cases h
    exact ⟨.scalar s, s, rfl, rfl, hholds⟩
  | some i =>
    cases v with
    | null | bool | number | string | object => simp [itemPath, Value.get?] at hv
    | array items =>
      have hi : items[i]? = some (.number (.ofInteger z)) := by
        simpa [itemPath, Value.get?] using hv
      rw [ofJson?, AttributeValue.ofJson?, Option.map_map] at h
      obtain ⟨scalars, hscalars, rfl⟩ := Option.map_eq_some_iff.1 h
      refine ⟨.list scalars, s, rfl, ?_, hholds⟩
      show scalars[i]? = some s
      rw [getElem?_of_mapM hscalars, hi]
      exact hs

/-! ## Documents with integers -/

/-- The document has the integer in its decimal form in the properties of the node with this place:
under these keys, by itself or as an item of a sequence. -/
def Json.Outline.HasInteger (o : Outline) (place : List Nat) (keys : List String)
    (item : Option Nat) (z : Int) : Prop :=
  ∃ rest, NumberEnds rest ∧
    o.textAt? (childPath place ++ .member "properties" :: (keyPath keys ++ itemPath item)) =
      some ((toString z).toList ++ rest)

/-- The attribute value has the integer, by itself or as an item, and the decimal form of it among
its texts. -/
structure AttributeValue.HasInteger (a : AttributeValue) (item : Option Nat) (z : Int) : Prop where
  stored : ∃ s, a.scalarAt? item = some s ∧ s.Holds z
  written : a.parts[item.getD 0]? = some (toString z)

namespace Node

theorem exists_hasInteger {o : Outline} {n : Node} {place : List Nat} {tag : String}
    {p : Option Properties} {cs : Option (List Node)} {keys : List String} {item : Option Nat}
    {z : Int} (hload : ofJson o.value.collapse = .ok n)
    (hnode : n.descendant? place = some (.element tag p cs)) (hkeys : keys ≠ []) (hz : Fits z)
    (h : o.HasInteger place keys item z) :
    ∃ q a, p = some q ∧ (PropertyValue.nested q).get? keys = some (.attr a) ∧
      a.HasInteger item z := by
  obtain ⟨rest, hrest, htext⟩ := h
  have hvalue := Outline.get?_value_of_textAt? htext
  rw [Outline.plainOf, plainValue_integer hz hrest, Value.get?_append] at hvalue
  obtain ⟨u, hu, hvalue⟩ := Option.bind_eq_some_iff.1 hvalue
  obtain ⟨w, hw, helement⟩ := descendant?_of_ofJson hload hnode
  cases hw.symm.trans hu
  obtain ⟨k, ks, rfl⟩ := List.exists_cons_of_ne_nil hkeys
  obtain ⟨q, v, x, hp, hx, hread, hv⟩ := properties_of_ofJson helement hvalue
  obtain ⟨a, s, rfl, hs, hholds⟩ := PropertyValue.holds_of_ofJson? hz hread hv
  refine ⟨q, a, hp, hx, ⟨s, hs, hholds⟩, ?_⟩
  rw [AttributeValue.parts_of_scalarAt? hs, hholds.text]

/-- The last leaf of a name stands in what is written of every tree that the element is in. -/
theorem leaf_infix_render {n : Node} {place : List Nat} {tag : String} {q : Properties}
    {cs : Option (List Node)} (hnode : n.descendant? place = some (.element tag (some q) cs))
    {name : String} {a : AttributeValue} {before after : List (String × AttributeValue)}
    (hleaves : Properties.leaves q = before ++ (name, a) :: after) (hlast : name ∉ keys after)
    (options : RenderOptions) :
    (name ++ "=\"" ++ options.formatValue a ++ "\"").toList <:+: (n.render options).toList := by
  refine attribute_infix_render options hnode ?_
  rw [Properties.flatten_eq_ofEntries]
  exact mem_ofEntries_iff.2 ⟨before, after, hleaves, hlast⟩

end Node

/-! ## A sequence of integers -/

namespace Json

/-- The array of integers. -/
def Value.integers (zs : List Int) : Value := .array (zs.map fun z => .number (.ofInteger z))

namespace Value

theorem itemsBefore_integers {zs : List Int} (hzs : ∀ z ∈ zs, Fits z) (rest : List Char) :
    itemsBefore rest (zs.map fun z => .number (.ofInteger z)) =
      zs.flatMap (fun z => ',' :: (toString z).toList) ++ rest := by
  induction zs with
  | nil => rfl
  | cons z zs ih =>
    rw [List.forall_mem_cons] at hzs
    rw [List.map_cons, itemsBefore, before, Number.text_ofInteger hzs.1, ih hzs.2,
      List.flatMap_cons, List.cons_append, List.cons_append, List.append_assoc]

theorem toList_intercalate_comma (z : Int) (zs : List Int) :
    (",".intercalate ((z :: zs).map toString)).toList =
      (toString z).toList ++ zs.flatMap fun z => ',' :: (toString z).toList := by
  induction zs generalizing z with
  | nil => simp
  | cons y zs ih =>
    have hmore := ih y
    rw [List.map_cons] at hmore
    rw [List.map_cons, List.map_cons, String.intercalate_cons_cons, String.toList_append,
      String.toList_append, hmore, List.append_assoc]
    rfl

theorem before_integers {zs : List Int} (hzs : ∀ z ∈ zs, Fits z) (rest : List Char) :
    (integers zs).before rest = '[' :: (",".intercalate (zs.map toString)).toList ++ ']' :: rest := by
  cases zs with
  | nil => rfl
  | cons z zs =>
    rw [List.forall_mem_cons] at hzs
    rw [integers, List.map_cons, before, before, itemsBefore_integers hzs.2,
      Number.text_ofInteger hzs.1, toList_intercalate_comma, List.cons_append, List.append_assoc]

theorem integral_integers {zs : List Int} (hzs : ∀ z ∈ zs, Fits z) : (integers zs).Integral :=
  .array (List.forall_mem_map.2 fun z hz => .number (Number.isInteger_ofInteger (hzs z hz)))

theorem depth_integers (zs : List Int) : (integers zs).depth = 1 := by
  rw [integers, depth]
  induction zs with
  | nil => rfl
  | cons z zs ih => rwa [List.map_cons, depthAll, depth, Nat.zero_max]

theorem collapse_integers (zs : List Int) : (integers zs).collapse = integers zs := by
  rw [integers, collapse_array, List.map_map]
  rfl

theorem blankNulls_integers (zs : List Int) : (integers zs).blankNulls = integers zs := by
  rw [integers, blankNulls_array, List.map_map]
  rfl

end Value

end Json

namespace Node

/-- The element whose one property is a sequence of integers. -/
def listDocument (tag key : String) (zs : List Int) : Value :=
  .object (elementMembers tag (some (.object [(key, .integers zs)])) none)

/-- The text of the element, without blanks. -/
def listText (tag key : String) (zs : List Int) : String :=
  "\x7b\"type\":\"ELEMENT\",\"tag\":" ++ (Value.string tag).text ++ ",\"properties\":\x7b" ++
    (Value.string key).text ++ ":[" ++ ",".intercalate (zs.map toString) ++ "]\x7d\x7d"

variable {tag key : String} {zs : List Int} (hzs : ∀ z ∈ zs, Fits z)
include hzs

theorem text_listDocument : (listDocument tag key zs).text = listText tag key zs := by
  have htag : "\x7b\"type\":\"ELEMENT\",\"tag\":".toList = '\x7b' :: stringBefore "type"
      (':' :: stringBefore "ELEMENT" (',' :: stringBefore "tag" [':'])) := by decide +kernel
  have hkey : ",\"properties\":\x7b".toList = ',' :: stringBefore "properties" [':', '\x7b'] := by
    decide +kernel
  have hstring : ∀ s : String, (Value.string s).text.toList = stringBefore s [] := fun s =>
    String.toList_ofList
  apply String.toList_inj.1
  unfold listText
  simp only [String.toList_append, htag, hkey, hstring, List.cons_append, List.append_assoc,
    stringBefore_append, List.nil_append]
  rw [Value.text, String.toList_ofList]
  show '\x7b' :: stringBefore "type" (':' :: stringBefore "ELEMENT" (',' :: stringBefore "tag"
    (':' :: stringBefore tag (',' :: stringBefore "properties" (':' :: '\x7b' :: stringBefore key
      (':' :: Value.before ['\x7d', '\x7d'] _)))))) = _
  rw [Value.before_integers hzs]
  rfl

theorem read_listText : Value.read (listText tag key zs) = .ok (listDocument tag key zs) := by
  have hintegral : (listDocument tag key zs).Integral := by
    refine every_elementMembers ?_ nofun
    rintro v ⟨⟩
    exact .object (List.forall_mem_singleton.2 (Value.integral_integers hzs))
  have hdepth : (listDocument tag key zs).depth ≤ maxDepth := by
    show max 0 (max 0 (max (max (Value.integers zs).depth 0 + 1) 0)) + 1 ≤ 127
    rw [Value.depth_integers]
    decide
  rw [← text_listDocument hzs]
  exact read_text hintegral hdepth

/-- The integers are written with one blank between, whatever blanks are in the text. -/
theorem renderJson_listDocument {text : String}
    (h : Value.read text = .ok (listDocument tag key zs)) : renderJson text =
      .ok ("<" ++ Text.lowercase tag ++ " " ++ key ++ "=\"" ++ " ".intercalate (zs.map toString) ++
        "\">" ++ "</" ++ Text.lowercase tag ++ ">") := by
  obtain ⟨ss, hss, htexts⟩ := Scalar.mapM_ofJson?_integers hzs
  let p : Properties := [(.name key, .attr (.list ss))]
  have hread : Properties.ofJson (Value.object [(key, .integers zs)]).collapse.blankNulls = .ok p := by
    rw [Value.collapse_object]
    show Properties.ofJson (Value.blankNulls (.object [(key, (Value.integers zs).collapse)])) = _
    rw [Value.collapse_integers, Value.blankNulls_object]
    show Properties.ofJson (.object [(key, (Value.integers zs).blankNulls)]) = _
    rw [Value.blankNulls_integers, Properties.ofJson, Properties.ofMembers?, Value.integers,
      PropertyValue.ofJson?, AttributeValue.ofJson?, hss]
    rfl
  have hload : ofJson (listDocument tag key zs).collapse = .ok (.element tag (some p) none) := by
    rw [listDocument, collapse_elementMembers, ofJson_elementMembers]
    exact loadElement_ok_iff.2 ⟨tag, some p, none, rfl, loadProperties_of_ofJson hread, rfl, rfl⟩
  have hattributes : RenderOptions.attributesText {} p =
      key ++ "=\"" ++ " ".intercalate (ss.map Scalar.text) ++ "\"" :=
    String.intercalate_singleton
  have hopen : RenderOptions.openTag {} tag (some p) =
      "<" ++ Text.lowercase tag ++ (" " ++ RenderOptions.attributesText {} p) ++ ">" := rfl
  rw [renderJson, ofText_ok_iff.2 ⟨_, h, hload⟩]
  show Except.ok (Node.render _) = _
  have hquote : "\">" = "\"" ++ ">" := rfl
  rw [render_bare, hopen, hattributes, htexts, RenderOptions.closeTag, hquote]
  simp only [String.append_assoc]

/-! ## Whole documents -/

omit hzs

/-- **Integers are kept from the text to the markup.** A document that nests no deeper than texts
are read, and stands for a tree, is loaded. An integer of sixty-four bits that it has in the
properties of an element, at whatever keys, is stored as a scalar that is that integer, and the
attribute has its decimal form; the attribute is written unless a later one has its name. A sequence
of integers is written with one blank between. -/
theorem ofText_integers :
    (∀ (depth : Nat) (text : String) (o : Outline), Outline.read depth text = .ok o →
      o.value.depth ≤ 127 → o.value.collapse.IsTree → ∃ n, ofText text = .ok n ∧
      ∀ place tag p cs keys item z, n.descendant? place = some (.element tag p cs) → keys ≠ [] →
        Fits z → o.HasInteger place keys item z →
        ∃ q a, p = some q ∧ (PropertyValue.nested q).get? keys = some (.attr a) ∧
          a.HasInteger item z ∧ ("-".intercalate keys, a) ∈ Properties.leaves q ∧
          ∀ before after, Properties.leaves q = before ++ ("-".intercalate keys, a) :: after →
            "-".intercalate keys ∉ OrderedMap.keys after → ∀ options : RenderOptions,
            ("-".intercalate keys ++ "=\"" ++ options.formatValue a ++ "\"").toList <:+:
              (n.render options).toList) ∧
    ∀ (tag key : String) (zs : List Int), (∀ z ∈ zs, Fits z) →
      Value.read (listText tag key zs) = .ok (listDocument tag key zs) ∧
      ∀ text, Value.read text = .ok (listDocument tag key zs) → renderJson text =
        .ok ("<" ++ Text.lowercase tag ++ " " ++ key ++ "=\"" ++
          " ".intercalate (zs.map toString) ++ "\">" ++ "</" ++ Text.lowercase tag ++ ">") := by
  refine ⟨fun depth text o ho hdepth htree => ?_, fun tag key zs hzs =>
    ⟨read_listText hzs, fun text h => renderJson_listDocument hzs h⟩⟩
  obtain ⟨n, hload⟩ := (ofJson_ok_iff _).2 htree
  refine ⟨n, ofText_ok_iff.2 ⟨_, Outline.read_value ho hdepth, hload⟩, ?_⟩
  intro place tag p cs keys item z hnode hkeys hz h
  obtain ⟨q, a, rfl, ha, hinteger⟩ := exists_hasInteger hload hnode hkeys hz h
  obtain ⟨k, ks, rfl⟩ := List.exists_cons_of_ne_nil hkeys
  exact ⟨q, a, rfl, ha, hinteger, Properties.mem_leaves_of_get? ha,
    fun before after hleaves hlast => leaf_infix_render hnode hleaves hlast⟩

/-- The least natural number that is stored unsigned, in a sequence in a nested mapping of a child,
and the two ends of the range in a sequence. -/
theorem ofText_integers_nested :
    let text := "\x7b\"type\":\"ELEMENT\",\"tag\":\"DIV\",\"children\":[" ++
      "\x7b\"type\":\"ELEMENT\",\"tag\":\"I\",\"properties\":" ++
      "\x7b\"a\":\x7b\"b\":[1,9223372036854775808]\x7d\x7d\x7d]\x7d"
    let a : AttributeValue := .list [.int 1, .uint 9223372036854775808]
    let q : Properties := [(.name "a", .nested [(.name "b", .attr a)])]
    let n := element "DIV" none (some [element "I" (some q) none])
    (∃ o, Outline.read 127 text = .ok o ∧ o.value.depth ≤ 127 ∧ o.value.collapse.IsTree ∧
      ofText text = .ok n ∧ n.descendant? [0] = some (element "I" (some q) none) ∧
      Fits 9223372036854775808 ∧ o.HasInteger [0] ["a", "b"] (some 1) 9223372036854775808 ∧
      a.HasInteger (some 1) 9223372036854775808 ∧ Properties.leaves q = [] ++ ("a-b", a) :: [] ∧
      "a-b=\"1 9223372036854775808\"".toList <:+: (n.render {}).toList) ∧
    (∀ z ∈ [-9223372036854775808, 18446744073709551615], Fits z) ∧
    renderJson (listText "P" "n" [-9223372036854775808, 18446744073709551615]) =
      .ok "<p n=\"-9223372036854775808 18446744073709551615\"></p>" := by
  intro text a q n
  let entries : Value := .object [("a", .object [("b", .integers [1, 9223372036854775808])])]
  let v : Value := .object (elementMembers "DIV" none
    (some (.array [.object (elementMembers "I" (some entries) none)])))
  have hintegers : ∀ z ∈ [(1 : Int), 9223372036854775808], Fits z := by decide
  have hentries : entries.Integral := .object (List.forall_mem_singleton.2
    (.object (List.forall_mem_singleton.2 (Value.integral_integers hintegers))))
  have hintegral : v.Integral := by
    refine every_elementMembers nofun ?_
    rintro w ⟨⟩
    refine .array (List.forall_mem_singleton.2 (every_elementMembers ?_ nofun))
    rintro w ⟨⟩
    exact hentries
  have htext : text = v.text := by decide +kernel
  have hread : Value.read text = .ok v := htext ▸ read_text hintegral (by decide)
  have hload : ofJson v.collapse = .ok n := rfl
  have houtline : ((Outline.read 127 text).toOption.any fun o => decide (o.value.depth ≤ 127) &&
      o.textAt? (childPath [0] ++ .member "properties" ::
        (keyPath ["a", "b"] ++ itemPath (some 1))) ==
          some ((toString (9223372036854775808 : Int)).toList ++
            "]\x7d\x7d\x7d]\x7d".toList)) = true := by
    decide +kernel
  obtain ⟨o, ho, hplace⟩ := exists_of_toOption_any houtline
  rw [Bool.and_eq_true, decide_eq_true_iff] at hplace
  obtain ⟨hdepth, hplace⟩ := hplace
  have hvalue : o.value = v :=
    Except.ok.inj ((Outline.read_value ho hdepth).symm.trans hread)
  have htree : o.value.collapse.IsTree := (ofJson_ok_iff _).1 ⟨n, hvalue ▸ hload⟩
  have hinteger : o.HasInteger [0] ["a", "b"] (some 1) 9223372036854775808 := by
    refine ⟨_, ?_, eq_of_beq hplace⟩
    rintro c ⟨⟩
    decide
  obtain ⟨m, hm, hkeep⟩ := ofText_integers.1 127 text o ho hdepth htree
  have hn : ofText text = .ok n := ofText_ok_iff.2 ⟨v, hread, hload⟩
  cases hm.symm.trans hn
  obtain ⟨_, b, ⟨⟩, hb, hhas, -, hwritten⟩ := hkeep [0] "I" (some q) none ["a", "b"] (some 1)
    9223372036854775808 rfl nofun (by decide) hinteger
  cases hb
  have hrender := ofText_integers.2 "P" "n" [-9223372036854775808, 18446744073709551615] (by decide)
  refine ⟨⟨o, ho, hdepth, htree, hn, rfl, by decide, hinteger, hhas, rfl, ?_⟩, by decide, ?_⟩
  · exact hwritten [] [] rfl nofun {}
  · exact hrender.2 _ hrender.1

/-- An element with an integer in mappings that nest this deep. -/
def deepText (levels : Nat) : String :=
  String.ofList ("\x7b\"type\":\"ELEMENT\",\"properties\":".toList ++
    (List.replicate levels "\x7b\"a\":".toList).flatten ++ '1' :: List.replicate (levels + 1) '\x7d')

/-- **Not every depth is read.** The document for a tree may have an integer in mappings that nest
127 deep, and so be a container deeper than texts are read. -/
theorem ofText_error_deep :
    (∃ o, Outline.read 128 (deepText 127) = .ok o ∧ o.value.collapse.IsTree ∧
      o.HasInteger [] (List.replicate 127 "a") none 1) ∧
    (∃ f, ofText (deepText 127) = .error f ∧ f.kind = .parse) ∧
    ¬∀ depth text o place keys item z, Outline.read depth text = .ok o →
      o.value.collapse.IsTree → Fits z → o.HasInteger place keys item z →
      ∃ n, ofText text = .ok n := by
  have houtline : ((Outline.read 128 (deepText 127)).toOption.any fun o =>
      (ofJson o.value.collapse).isOk && o.textAt? (childPath [] ++ .member "properties" ::
        (keyPath (List.replicate 127 "a") ++ itemPath none)) ==
          some ((toString (1 : Int)).toList ++ List.replicate 128 '\x7d')) = true := by
    unfold Outline.read deepText
    rw [String.toList_ofList]
    decide +kernel
  have hread : (Value.read (deepText 127)).isOk = false := by
    unfold Value.read deepText
    rw [String.toList_ofList]
    decide +kernel
  obtain ⟨o, ho, htree⟩ := exists_of_toOption_any houtline
  rw [Bool.and_eq_true] at htree
  obtain ⟨hload, htext⟩ := htree
  have htree : o.value.collapse.IsTree := (ofJson_ok_iff _).1 (exists_of_isOk hload)
  have hends : NumberEnds (List.replicate 128 '\x7d') := by
    rintro c ⟨⟩
    decide
  have hinteger : o.HasInteger [] (List.replicate 127 "a") none 1 := ⟨_, hends, eq_of_beq htext⟩
  obtain ⟨f, hf, hkind⟩ := ofText_parse hread
  refine ⟨⟨o, ho, htree, hinteger⟩, ⟨f, hf, hkind⟩, fun h => ?_⟩
  obtain ⟨n, hn⟩ := h 128 (deepText 127) o [] _ none 1 ho htree (by decide) hinteger
  cases hf.symm.trans hn

end Node

end MarkupTree

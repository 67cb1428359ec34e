import MarkupTree.Proofs.Attribute

/-!
# Rendering as concatenation

The writer is given the text so far and only adds to it (`renderOnto_eq`). So the written form of an
element is its opening tag, the written forms of its children one after the other, and its closing
tag (`render_parent`). Properties may change, and the options with them, wherever the opening tags
stay the same (`render_mapProperties`), and these go by the names of the attributes and by the texts
of their scalars (`openTag_congr`). What is written of a node, and of an attribute of it, stands in
what is written of every tree that the node is in (`attribute_infix_render`).
-/

namespace MarkupTree

namespace RenderOptions

variable (options : RenderOptions)

theorem attributesText_congr {p q : Properties} (h : p.flatten.SameParts q.flatten) :
    options.attributesText p = options.attributesText q := by
  have hparts : ∀ p : Properties, options.attributesText p =
      " ".intercalate ((p.flatten.map (Prod.map id AttributeValue.parts)).map fun e =>
        e.1 ++ "=\"" ++
          " ".intercalate (if options.dedupeAttributeValues then e.2.eraseDups else e.2) ++
          "\"") := by
    intro p
    rw [List.map_map]
    rfl
  rw [hparts, hparts, h]

theorem openTag_congr {p q : Properties} (hempty : p.isEmpty = q.isEmpty)
    (h : p.flatten.SameParts q.flatten) (tag : String) :
    openTag options tag (some p) = openTag options tag (some q) := by
  simp only [openTag, hempty, attributesText_congr options h]

end RenderOptions

namespace Node

open RenderOptions

variable (options : RenderOptions)

theorem renderAllOnto_eq_of {ns : List Node}
    (h : ∀ n ∈ ns, ∀ out, renderOnto options out n = out ++ render n options) (out : String) :
    renderAllOnto options out ns = out ++ String.join (ns.map (render · options)) := by
  induction ns generalizing out with
  | nil => simp [renderAllOnto]
  | cons n ns ih =>
    rw [renderAllOnto, h n List.mem_cons_self, ih fun m hm => h m (List.mem_cons_of_mem _ hm)]
    simp [String.append_assoc]

/-- The writer adds the written form to what is there already. -/
theorem renderOnto_eq (n : Node) (out : String) :
    renderOnto options out n = out ++ render n options := by
  induction n using Node.induction generalizing out with
  | text s => simp [render, renderOnto]
  | bare tag p => simp [render, renderOnto, String.append_assoc]
  | parent tag p ns ih =>
    simp only [render, renderOnto, renderAllOnto_eq_of options ih]
    simp [String.append_assoc]

@[simp] theorem render_text (s : String) : render (.text s) options = s := by
  simp [render, renderOnto]

@[simp] theorem render_bare (tag : String) (p : Option Properties) :
    render (.element tag p none) options = openTag options tag p ++ closeTag tag := by
  simp [render, renderOnto]

@[simp] theorem render_parent (tag : String) (p : Option Properties) (ns : List Node) :
    render (.element tag p (some ns)) options =
      openTag options tag p ++ String.join (ns.map (render · options)) ++ closeTag tag := by
  rw [render, renderOnto, renderAllOnto_eq_of options fun n _ => renderOnto_eq options n]
  simp

/-- Absent children and none are written alike. -/
theorem render_element (tag : String) (p : Option Properties) (cs : Option (List Node)) :
    render (.element tag p cs) options =
      openTag options tag p ++ String.join ((cs.getD []).map (render · options)) ++ closeTag tag := by
  cases cs with
  | none => simp
  | some ns => exact render_parent options tag p ns

/-- What is written around a child does not hang on the child. -/
theorem render_parent_around (tag : String) (p : Option Properties) (before after : List Node) :
    ∃ pre post, ∀ n : Node, render (.element tag p (some (before ++ n :: after))) options =
      pre ++ n.render options ++ post := by
  refine ⟨openTag options tag p ++ String.join (before.map (render · options)),
    String.join (after.map (render · options)) ++ closeTag tag, fun n => ?_⟩
  rw [render_parent, List.map_append, List.map_cons, String.join_append, String.join_cons]
  simp only [String.append_assoc]

/-- Properties may change wherever they stand for the same opening tags. -/
theorem render_mapProperties {options options' : RenderOptions} {P : Properties → Prop}
    {f : Option Properties → Option Properties}
    (hf : ∀ p, (∀ q ∈ p, P q) → ∀ tag, options'.openTag tag (f p) = options.openTag tag p)
    {n : Node} (h : n.Every P) : render (n.mapProperties f) options' = render n options := by
  induction h with
  | text s => simp [mapProperties]
  | bare hp => simp [mapProperties, hf _ hp]
  | @parent tag p ns hp _ ih =>
    have hchildren : ns.map ((render · options') ∘ mapProperties f) = ns.map (render · options) :=
      List.map_congr_left ih
    simp [mapProperties, hf _ hp, hchildren]

end Node

/-! ## What stands in the written form -/

theorem infix_intercalate {sep t : String} : ∀ {l : List String}, t ∈ l →
    t.toList <:+: (sep.intercalate l).toList
  | [u], h => by simp [List.mem_singleton.1 h]
  | u :: v :: l, h => by
    rw [String.intercalate_cons_cons, String.toList_append, String.toList_append, List.append_assoc]
    rcases List.mem_cons.1 h with rfl | h
    · exact (List.prefix_append _ _).isInfix
    · exact ((infix_intercalate h).trans (List.suffix_append _ _).isInfix).trans
        (List.suffix_append _ _).isInfix

theorem RenderOptions.attribute_infix_openTag (options : RenderOptions) (tag : String)
    {p : Properties} {name : String} {a : AttributeValue} (h : (name, a) ∈ p.flatten) :
    (name ++ "=\"" ++ options.formatValue a ++ "\"").toList <:+:
      (openTag options tag (some p)).toList := by
  have hne : p.isEmpty = false := by
    cases p with
    | nil => cases h
    | cons e p => rfl
  have hattribute : (name ++ "=\"" ++ options.formatValue a ++ "\"").toList <:+:
      (options.attributesText p).toList := infix_intercalate (List.mem_map.2 ⟨_, h, rfl⟩)
  have htag : openTag options tag (some p) =
      ("<" ++ Text.lowercase tag ++ " ") ++ options.attributesText p ++ ">" := by
    simp [openTag, hne, String.append_assoc]
  refine hattribute.trans ?_
  rw [htag, String.toList_append, String.toList_append]
  exact List.infix_append _ _ _

namespace Node

variable (options : RenderOptions)

theorem render_infix_of_descendant? {n m : Node} {path : List Nat} (h : n.descendant? path = some m) :
    (m.render options).toList <:+: (n.render options).toList := by
  induction path generalizing n with
  | nil =>
    rw [descendant?_nil, Option.some_inj] at h
    exact h ▸ List.infix_rfl
  | cons i path ih =>
    obtain ⟨tag, p, before, c, after, rfl, -, hc⟩ := exists_of_descendant?_cons h
    obtain ⟨pre, post, hrender⟩ := render_parent_around options tag p before after
    rw [hrender, String.toList_append, String.toList_append]
    exact (ih hc).trans (List.infix_append _ _ _)

theorem attribute_infix_render {n : Node} {path : List Nat} {tag : String} {p : Properties}
    {cs : Option (List Node)} (h : n.descendant? path = some (.element tag (some p) cs))
    {name : String} {a : AttributeValue} (ha : (name, a) ∈ p.flatten) :
    (name ++ "=\"" ++ options.formatValue a ++ "\"").toList <:+: (n.render options).toList := by
  refine List.IsInfix.trans ?_ (render_infix_of_descendant? options h)
  refine (options.attribute_infix_openTag tag ha).trans ?_
  cases cs with
  | none =>
    simpa using (List.prefix_append _ _).isInfix
  | some ns =>
    simpa using (List.prefix_append _ _).isInfix

end Node

end MarkupTree

import MarkupTree.Proofs.Render

/-!
# Mappings without leaves

A nested mapping that holds no attribute value, however deep, stands for no attribute
(`Properties.flatten_eq_nil_iff`), and flattening does not see whether it is there
(`Properties.Drops.flatten`). The writer of tags does see it in one case: it sets attributes off by
a blank if the mapping has entries, though it may have no leaves (`RenderOptions.openTag_eq`). So an
entry without leaves may be left out of a tree without a change, unless it is the only one of an
element; then a blank is lost with it (`Node.render_drops`).
-/

namespace MarkupTree

open OrderedMap

/-! ## Values and mappings -/

/-- The value is a mapping, and so is all that it holds. -/
inductive PropertyValue.Leafless : PropertyValue → Prop
  | nested {p : Properties} : (∀ e ∈ p, Leafless e.2) → Leafless (.nested p)

theorem Properties.leaves_eq_nil_iff {p : Properties} :
    leaves p = [] ↔ ∀ e ∈ p, e.2.leaves e.1.flat = [] := by
  induction p with
  | nil => simp [leaves]
  | cons e p ih => rw [leaves, List.append_eq_nil_iff, ih, List.forall_mem_cons]

theorem PropertyValue.leaves_eq_nil_iff {v : PropertyValue} {name : String} :
    v.leaves name = [] ↔ v.Leafless := by
  induction v using PropertyValue.induction generalizing name with
  | attr a =>
    refine iff_of_false (List.cons_ne_nil _ _) ?_
    rintro ⟨⟩
  | nested p ih =>
    rw [leaves, List.map_eq_nil_iff, Properties.leaves_eq_nil_iff]
    constructor
    · exact fun h => .nested fun e he => (ih e he).1 (h e he)
    · rintro ⟨h⟩ e he
      exact (ih e he).2 (h e he)

/-- **The mappings without attributes are those without leaves.** -/
theorem Properties.flatten_eq_nil_iff {p : Properties} :
    p.flatten = [] ↔ ∀ e ∈ p, e.2.Leafless := by
  rw [flatten_eq_ofEntries, ofEntries_eq_nil_iff, leaves_eq_nil_iff]
  simp only [PropertyValue.leaves_eq_nil_iff]

/-! ## Leaving an entry out -/

/-- The second mapping is the first one without one entry that has no leaves, in the mapping itself
or in one nested in it. -/
inductive Properties.Drops : Properties → Properties → Prop
  | here (before after : Properties) {k : PropertyKey} {v : PropertyValue} : v.Leafless →
    Drops (before ++ (k, v) :: after) (before ++ after)
  | inside (before after : Properties) {k : PropertyKey} {p q : Properties} : Drops p q →
    Drops (before ++ (k, .nested p) :: after) (before ++ (k, .nested q) :: after)

namespace Properties.Drops

variable {p q : Properties}

theorem leaves (h : p.Drops q) : Properties.leaves p = Properties.leaves q := by
  induction h with
  | here before after hv =>
    simp [Properties.leaves, PropertyValue.leaves_eq_nil_iff.2 hv]
  | inside before after _ ih =>
    simp [Properties.leaves, PropertyValue.leaves, ih]

/-- **Flattening does not see entries without leaves.** -/
theorem flatten (h : p.Drops q) : p.flatten = q.flatten := by
  rw [flatten_eq_ofEntries, flatten_eq_ofEntries, h.leaves]

theorem ne_nil (h : p.Drops q) : p ≠ [] := by
  cases h <;> simp

end Properties.Drops

/-! ## Opening tags -/

/-- Items with one blank between and one in front are items with a blank in front of each. -/
theorem blank_append_intercalate : ∀ {l : List String}, l ≠ [] →
    " " ++ " ".intercalate l = String.join (l.map (" " ++ ·))
  | [s], _ => by simp
  | s :: t :: l, _ => by
    have ih := blank_append_intercalate (List.cons_ne_nil t l)
    rw [String.intercalate_cons_cons, List.map_cons, String.join_cons, ← ih]
    simp only [String.append_assoc]

namespace RenderOptions

variable (options : RenderOptions) (tag : String)

/-- The attributes of a mapping, with a blank in front of each. -/
def spacedAttributes (p : Properties) : String :=
  String.join (p.flatten.map fun e => " " ++ e.1 ++ "=\"" ++ options.formatValue e.2 ++ "\"")

/-- **What stands in an opening tag**: the attributes with a blank in front of each, and a lone
blank for a mapping that has entries and no attributes. -/
theorem openTag_eq (p : Properties) : openTag options tag (some p) =
    "<" ++ Text.lowercase tag ++
      (if p ≠ [] ∧ p.flatten = [] then " " else options.spacedAttributes p) ++ ">" := by
  by_cases hp : p = []
  · subst hp
    simp [openTag, spacedAttributes, Properties.flatten, Properties.flattenInto]
  · have hempty : p.isEmpty = false := by simpa using hp
    by_cases hflat : p.flatten = []
    · simp [openTag, attributesText, hp, hflat]
    · have hspaced : " " ++ options.attributesText p = options.spacedAttributes p := by
        rw [attributesText, blank_append_intercalate (by simpa using hflat), List.map_map]
        simp [spacedAttributes, Function.comp_def, String.append_assoc]
      simp [openTag, hempty, hp, hflat, hspaced]

theorem openTag_of_leafless {p : Properties} (hp : p ≠ []) (h : ∀ e ∈ p, e.2.Leafless) :
    openTag options tag (some p) = "<" ++ Text.lowercase tag ++ " >" := by
  have hflat : p.flatten = [] := Properties.flatten_eq_nil_iff.2 h
  rw [openTag_eq, if_pos ⟨hp, hflat⟩, String.append_assoc]
  rfl

theorem openTag_eq_iff (p : Properties) :
    openTag options tag (some p) =
      "<" ++ Text.lowercase tag ++ options.spacedAttributes p ++ ">" ↔
        p = [] ∨ ¬∀ e ∈ p, e.2.Leafless := by
  rw [← Properties.flatten_eq_nil_iff]
  by_cases hp : p ≠ [] ∧ p.flatten = []
  · have hnone : options.spacedAttributes p = "" := by simp [spacedAttributes, hp.2]
    have hne : "<" ++ Text.lowercase tag ++ " " ++ ">" ≠ "<" ++ Text.lowercase tag ++ "" ++ ">" := by
      intro heq
      have hlength := congrArg String.length heq
      simp [String.length_append] at hlength
    rw [openTag_eq, if_pos hp, hnone]
    exact iff_of_false hne (by simpa using hp)
  · rw [openTag_eq, if_neg hp]
    exact iff_of_true rfl (by simpa [or_iff_not_imp_left] using hp)

theorem openTag_drops {p q : Properties} (h : p.Drops q) (hq : q ≠ []) :
    openTag options tag (some p) = openTag options tag (some q) := by
  have hentries : p ≠ [] ∧ q.flatten = [] ↔ q ≠ [] ∧ q.flatten = [] :=
    and_congr_left fun _ => iff_of_true h.ne_nil hq
  simp only [openTag_eq, spacedAttributes, h.flatten, hentries]

/-- Where an element loses its only entry, the blank that this has made is lost. -/
theorem openTag_drops_nil {p : Properties} (h : p.Drops []) :
    openTag options tag (some p) = "<" ++ Text.lowercase tag ++ " >" ∧
      openTag options tag (some []) = "<" ++ Text.lowercase tag ++ ">" := by
  have hflat : p.flatten = [] := h.flatten
  constructor
  · exact openTag_of_leafless options tag h.ne_nil (Properties.flatten_eq_nil_iff.1 hflat)
  · simp [openTag]

end RenderOptions

/-! ## Trees -/

namespace Node

/-- The second tree is the first one without one entry that has no leaves; `left` are the properties
that are left to the element. -/
inductive Drops (left : Properties) : Node → Node → Prop
  | here {tag : String} {p : Properties} {cs : Option (List Node)} : p.Drops left →
    Drops left (.element tag (some p) cs) (.element tag (some left) cs)
  | child {tag : String} {p : Option Properties} (before after : List Node) {n m : Node} :
    Drops left n m → Drops left (.element tag p (some (before ++ n :: after)))
      (.element tag p (some (before ++ m :: after)))

variable {left : Properties} {n m : Node} (options : RenderOptions)

theorem render_eq_of_drops (h : n.Drops left m) (hleft : left ≠ []) :
    n.render options = m.render options := by
  induction h with
  | @here tag p cs hp =>
    rw [render_element, render_element, options.openTag_drops tag hp hleft]
  | @child tag p before after _ _ _ ih =>
    obtain ⟨pre, post, haround⟩ := render_parent_around options tag p before after
    rw [haround, haround, ih]

theorem render_of_drops_nil (h : n.Drops [] m) : ∃ pre tag post,
    n.render options = pre ++ ("<" ++ Text.lowercase tag ++ " >") ++ post ∧
      m.render options = pre ++ ("<" ++ Text.lowercase tag ++ ">") ++ post := by
  induction h with
  | @here tag p cs hp =>
    obtain ⟨hbefore, hafter⟩ := options.openTag_drops_nil tag hp
    refine ⟨"", tag, String.join ((cs.getD []).map (render · options)) ++
      RenderOptions.closeTag tag, ?_, ?_⟩
    · rw [render_element, hbefore, String.empty_append, String.append_assoc]
    · rw [render_element, hafter, String.empty_append, String.append_assoc]
  | @child tag p before after _ _ _ ih =>
    obtain ⟨pre, tag', post, hn, hm⟩ := ih
    obtain ⟨pre', post', haround⟩ := render_parent_around options tag p before after
    refine ⟨pre' ++ pre, tag', post ++ post', ?_, ?_⟩
    · rw [haround, hn]
      simp only [String.append_assoc]
    · rw [haround, hm]
      simp only [String.append_assoc]

theorem render_ne_of_drops_nil (h : n.Drops [] m) : n.render options ≠ m.render options := by
  obtain ⟨pre, tag, post, hn, hm⟩ := render_of_drops_nil options h
  intro heq
  rw [hn, hm] at heq
  have hlength := congrArg String.length heq
  simp only [String.length_append] at hlength
  have hblank : " >".length = ">".length + 1 := rfl
  omega

/-- **An entry without leaves stands for nothing, but for a blank where it is the only one of an
element.** Leaving it out keeps the attributes, and keeps what is written just if the element has
other entries; else a blank at the end of one opening tag goes with it. For an opening tag is the
tag in lower case with each attribute after a blank, unless it has entries and none of them has
leaves: then there is a lone blank. -/
theorem render_drops (options : RenderOptions) :
    (∀ p q : Properties, p.Drops q → p.flatten = q.flatten) ∧
    (∀ (left : Properties) (n m : Node), n.Drops left m →
      (n.render options = m.render options ↔ left ≠ []) ∧
      (left = [] → ∃ pre tag post,
        n.render options = pre ++ ("<" ++ Text.lowercase tag ++ " >") ++ post ∧
        m.render options = pre ++ ("<" ++ Text.lowercase tag ++ ">") ++ post)) ∧
    (∀ tag : String, options.openTag tag none = "<" ++ Text.lowercase tag ++ ">") ∧
    ∀ (tag : String) (p : Properties),
      (options.openTag tag (some p) =
        "<" ++ Text.lowercase tag ++ options.spacedAttributes p ++ ">" ↔
          p = [] ∨ ¬∀ e ∈ p, e.2.Leafless) ∧
      (p ≠ [] → (∀ e ∈ p, e.2.Leafless) →
        options.openTag tag (some p) = "<" ++ Text.lowercase tag ++ " >") := by
  refine ⟨fun p q h => h.flatten, fun left n m h => ⟨⟨?_, ?_⟩, ?_⟩, fun tag => ?_,
    fun tag p => ⟨options.openTag_eq_iff tag p, options.openTag_of_leafless tag⟩⟩
  · rintro heq rfl
    exact render_ne_of_drops_nil options h heq
  · exact render_eq_of_drops options h
  · rintro rfl
    exact render_of_drops_nil options h
  · simp [RenderOptions.openTag]

/-- A mapping of mappings in a nested mapping of a child, beside an attribute; and the only entry of
an element. -/
theorem render_drops_nested :
    let empty : PropertyValue := .nested [(.name "x", .nested []), (.compound ["y"], .nested [])]
    let one : PropertyKey × PropertyValue := (.name "z", .attr (.scalar (.int 1)))
    let p : Properties := [(.name "data", .nested [(.name "k", empty), one])]
    let q : Properties := [(.name "data", .nested [one])]
    let n := element "P" none (some [.text "a", element "BR" (some p) none])
    let m := element "P" none (some [.text "a", element "BR" (some q) none])
    let bare := element "P" (some [(.name "k", empty)]) none
    n.Drops q m ∧ q ≠ [] ∧ p.flatten = q.flatten ∧ (∀ options, n.render options = m.render options) ∧
      bare.Drops [] (element "P" (some []) none) ∧
      bare.render {} ≠ (element "P" (some []) none).render {} ∧
      RenderOptions.openTag {} "P" (some [(.name "k", empty)]) = "<p >" := by
  intro empty one p q n m bare
  have hleafless : empty.Leafless := by
    refine .nested ?_
    simp only [List.forall_mem_cons]
    exact ⟨.nested nofun, .nested nofun, nofun⟩
  have hp : p.Drops q := .inside [] [] (.here [] [one] hleafless)
  have hn : n.Drops q m := .child [.text "a"] [] (.here hp)
  have hbare : bare.Drops [] (element "P" (some []) none) :=
    .here (.here [] [] hleafless)
  have hentry : ∀ e ∈ [(PropertyKey.name "k", empty)], e.2.Leafless := by
    simpa using hleafless
  obtain ⟨hflat, hrender, -, htag⟩ := render_drops {}
  have hopen := (htag "P" [(.name "k", empty)]).2 nofun hentry
  rw [show Text.lowercase "P" = "p" by decide +kernel] at hopen
  exact ⟨hn, nofun, hflat p q hp, fun options => ((render_drops options).2.1 q n m hn).1.2 nofun,
    hbare, fun heq => (hrender _ _ _ hbare).1.1 heq rfl, hopen⟩

/-- **A mapping without leaves leaves a blank.** -/
theorem render_ne_of_drops_only :
    let n := element "div" (some [(.name "data", .nested [])]) none
    let m := element "div" (some []) none
    n.Drops [] m ∧ n.render {} = "<div ></div>" ∧ m.render {} = "<div></div>" ∧
      (¬∀ (left : Properties) (n m : Node), n.Drops left m →
        ∀ options, n.render options = m.render options) ∧
      ¬∀ (options : RenderOptions) (tag : String) (p : Properties), options.openTag tag (some p) =
        "<" ++ Text.lowercase tag ++ options.spacedAttributes p ++ ">" := by
  intro n m
  have hdrops : n.Drops [] m := .here (.here [] [] (.nested nofun))
  have hn : n.render {} = "<div ></div>" := by decide +kernel
  have hm : m.render {} = "<div></div>" := by decide +kernel
  refine ⟨hdrops, hn, hm, fun h => ?_, fun h => ?_⟩
  · have hnm := h [] n m hdrops {}
    rw [hn, hm] at hnm
    exact absurd hnm (by decide)
  · exact absurd (h {} "div" [(.name "data", .nested [])]) (by decide +kernel)

end Node

end MarkupTree

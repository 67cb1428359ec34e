import MarkupTree.Proofs.Decimal.Binary64
import MarkupTree.Proofs.Render

/-!
# What equality says of the written form

Equality of trees does not look at the order of properties, but the writer does: it writes
attributes in order, and of those with the same name the last value. So equal trees may be written
differently (`render_ne_of_beq_swapped`). They are written alike, under all options, where their
mappings have their keys in the same order (`render_eq_of_beq`). Equal scalars have the same text,
also the two zeros (`Scalar.text_of_beq`); so equal entries at the same place have leaves with the
same texts (`PropertyValue.leaves_of_beq`).
-/

namespace MarkupTree

open OrderedMap

/-! ## Equal attribute values -/

theorem Scalar.floatText_of_zero {x : Float} {negative : Bool}
    (h : Decimal.Binary64.ofFloat x = .finite negative 0 (-1074)) : floatText x = "0" := by
  simp only [floatText, h, Decimal.Binary64.integer?_zero, Int.natAbs_zero, Nat.zero_le, if_true]
  rfl

theorem Scalar.text_of_beq {s t : Scalar} (h : (s == t) = true) : s.text = t.text := by
  -- Scalars of two kinds are never equal; within a kind, only doubles may be equal and not the same.
  cases s <;> cases t <;> try cases h
  case float.float x y =>
    show floatText x = floatText y
    rcases Decimal.Binary64.ofFloat_of_beq h with hxy | ⟨negative, negative', hx, hy⟩
    · rw [floatText, floatText, hxy]
    · rw [floatText_of_zero hx, floatText_of_zero hy]
  all_goals exact congrArg text (congrArg _ (eq_of_beq h))

theorem Scalar.map_text_of_beq : ∀ {ss ts : List Scalar}, (ss == ts) = true →
    ss.map text = ts.map text
  | [], [], _ => rfl
  | s :: ss, t :: ts, h => by
    obtain ⟨hst, hrest⟩ : (s == t) = true ∧ (ss == ts) = true := by simpa using h
    rw [List.map_cons, List.map_cons, text_of_beq hst, map_text_of_beq hrest]

theorem AttributeValue.parts_of_beq {a b : AttributeValue} (h : (a == b) = true) :
    a.parts = b.parts := by
  cases a with
  | list items =>
    cases b with
    | list items' => exact Scalar.map_text_of_beq h
    | scalar t => cases h
  | scalar s =>
    cases b with
    | list items => cases h
    | scalar t => exact congrArg ([·]) (Scalar.text_of_beq h)

/-! ## Keys in order -/

/-- The value with its attribute values left out: what is left is the keys of mappings, in order. -/
def PropertyValue.keyOrder (v : PropertyValue) : PropertyValue := v.mapAttributes fun _ => .list []

def Properties.keyOrder (p : Properties) : Properties := mapAttributes (fun _ => .list []) p

/-- The tree with its attribute values left out. -/
def Node.keyOrder (n : Node) : Node := n.mapProperties (Option.map Properties.keyOrder)

/-! ## Equal mappings -/

theorem Properties.within_iff {p q : Properties} :
    within p q = true ↔ ∀ e ∈ p, ∃ w, find? e.1 q = some w ∧ e.2.beq w = true := by
  induction p with
  | nil => simp [within]
  | cons e p ih =>
    rw [within, Bool.and_eq_true, ih, List.forall_mem_cons]
    refine and_congr_left fun _ => ?_
    cases find? e.1 q <;> simp

/-- Mappings with the same keys in the same order are equal entry by entry. -/
theorem Properties.forall₂_of_within {p q : Properties} (hp : (keys p).Nodup)
    (h : within p q = true) (horder : p.keyOrder = q.keyOrder) :
    List.Forall₂ (fun e d => e ∈ p ∧ e.1 = d.1 ∧ e.2.beq d.2 = true ∧
      e.2.keyOrder = d.2.keyOrder) p q := by
  have hsame : List.Forall₂ (fun e d => e.1 = d.1 ∧ e.2.keyOrder = d.2.keyOrder) p q := by
    rw [keyOrder, keyOrder, mapAttributes_eq, mapAttributes_eq, ← List.forall₂_eq_eq_eq,
      List.forall₂_map_left_iff, List.forall₂_map_right_iff] at horder
    exact horder.imp fun e d hed => Prod.mk.inj hed
  have hkeys : keys p = keys q := by
    rw [keys, keys, ← List.forall₂_eq_eq_eq, List.forall₂_map_left_iff, List.forall₂_map_right_iff]
    exact hsame.imp fun _ _ hed => hed.1
  refine List.forall₂_iff_zip.2 ⟨hsame.length_eq, @fun e d hed => ?_⟩
  obtain ⟨hkey, hvalue⟩ := (List.forall₂_iff_zip.1 hsame).2 hed
  obtain ⟨he, hd⟩ := List.of_mem_zip hed
  -- What is found at the key is the entry at the same place, as there is no other with that key.
  obtain ⟨w, hw, hbeq⟩ := within_iff.1 h e he
  obtain rfl : d.2 = w := Option.some.inj ((find?_of_mem (hkeys ▸ hp) hd).symm.trans (hkey ▸ hw))
  exact ⟨he, hkey, hbeq, hvalue⟩

theorem Properties.leaves_of_within {p q : Properties} (hp : (keys p).Nodup)
    (h : within p q = true) (horder : p.keyOrder = q.keyOrder)
    (hvalues : ∀ e ∈ p, ∀ w, e.2.beq w = true → e.2.keyOrder = w.keyOrder →
      ∀ name, Attributes.SameParts (e.2.leaves name) (w.leaves name)) :
    Attributes.SameParts (leaves p) (leaves q) := by
  refine leaves_sameParts ((forall₂_of_within hp h horder).imp ?_)
  rintro e d ⟨he, hkey, hbeq, hvalue⟩
  exact ⟨congrArg PropertyKey.flat hkey, hvalues e he d.2 hbeq hvalue⟩

/-- **Equal values with their keys in the same order have leaves with the same texts.** -/
theorem PropertyValue.leaves_of_beq {v w : PropertyValue} (hv : v.DistinctKeys)
    (h : v.beq w = true) (horder : v.keyOrder = w.keyOrder) (name : String) :
    Attributes.SameParts (v.leaves name) (w.leaves name) := by
  induction hv generalizing w name with
  | attr a =>
    cases w with
    | nested q => cases h
    | attr b => exact congrArg (fun parts => [(name, parts)]) (AttributeValue.parts_of_beq h)
  | @nested p hp _ ih =>
    cases w with
    | attr b => cases h
    | nested q =>
      obtain ⟨-, hwithin⟩ : (p.length == q.length) = true ∧ Properties.within p q = true := by
        rwa [beq, Bool.and_eq_true] at h
      refine leaves_nested_sameParts ?_ name
      exact Properties.leaves_of_within hp hwithin (nested.inj horder) fun e he w hw hvalue name =>
        ih e he hw hvalue name

/-! ## Equal trees -/

theorem RenderOptions.openTag_of_beq (options : RenderOptions) {p q : Option Properties}
    (hp : ∀ r ∈ p, (PropertyValue.nested r).DistinctKeys) (h : Node.propertiesBeq p q = true)
    (horder : p.map Properties.keyOrder = q.map Properties.keyOrder) (tag : String) :
    openTag options tag p = openTag options tag q := by
  cases p with
  | none =>
    cases q with
    | none => rfl
    | some q => cases h
  | some p =>
    cases q with
    | none => cases h
    | some q =>
      obtain ⟨hlength, hwithin⟩ : p.length = q.length ∧ Properties.within p q = true := by
        rwa [Node.propertiesBeq, Properties.beq, Bool.and_eq_true, beq_iff_eq] at h
      have hempty : p.isEmpty = q.isEmpty := by
        rw [Bool.eq_iff_iff, List.isEmpty_iff_length_eq_zero, List.isEmpty_iff_length_eq_zero,
          hlength]
      cases hp p rfl with
      | nested hkeys hvalues =>
        refine openTag_congr options hempty (Properties.flatten_sameParts ?_) tag
        exact Properties.leaves_of_within hkeys hwithin (Option.some.inj horder)
          fun e he _ hw hvalue => PropertyValue.leaves_of_beq (hvalues e he) hw hvalue

namespace Node

theorem map_render_of_beqAll (options : RenderOptions) : ∀ {ns ms : List Node},
    (∀ n ∈ ns, ∀ m, n.beq m = true → n.keyOrder = m.keyOrder →
      n.render options = m.render options) →
    beqAll ns ms = true → ns.map keyOrder = ms.map keyOrder →
    ns.map (render · options) = ms.map (render · options)
  | [], [], _, _, _ => rfl
  | n :: ns, m :: ms, hrender, h, horder => by
    rw [beqAll, Bool.and_eq_true] at h
    rw [List.map_cons, List.map_cons, List.cons.injEq] at horder
    rw [List.map_cons, List.map_cons, hrender n List.mem_cons_self m h.1 horder.1,
      map_render_of_beqAll options (fun n hn => hrender n (List.mem_cons_of_mem _ hn)) h.2 horder.2]

/-- **Equal trees with their keys in the same order are written alike.** -/
theorem render_eq_of_beq {a b : Node} (ha : a.DistinctKeys) (h : a.beq b = true)
    (horder : a.keyOrder = b.keyOrder) (options : RenderOptions) :
    a.render options = b.render options := by
  induction ha generalizing b with
  | text s =>
    cases b with
    | text t => rw [eq_of_beq h]
    | element tag q ds => cases h
  | @bare tag p hp =>
    cases b with
    | text t => cases h
    | element tag' q ds =>
      cases ds with
      | some ds => cases h
      | none =>
        rw [beq, Bool.and_eq_true, beq_iff_eq] at h
        obtain ⟨rfl, hproperties⟩ := h
        have hkeys : p.map Properties.keyOrder = q.map Properties.keyOrder :=
          (element.inj horder).2.1
        simp [options.openTag_of_beq hp hproperties hkeys]
  | @parent tag p cs hp _ ih =>
    cases b with
    | text t => cases h
    | element tag' q ds =>
      cases ds with
      | none => cases h
      | some ds =>
        rw [beq, Bool.and_eq_true, Bool.and_eq_true, beq_iff_eq] at h
        obtain ⟨⟨rfl, hproperties⟩, hall⟩ := h
        rw [keyOrder, keyOrder, mapProperties_element, mapProperties_element] at horder
        obtain ⟨-, hkeys, hchildren⟩ := element.inj horder
        rw [render_parent, render_parent, options.openTag_of_beq hp hproperties hkeys,
          map_render_of_beqAll options (fun n hn m => ih n hn) hall (Option.some.inj hchildren)]

/-- Trees that differ in the sign of a zero, in a nested mapping. -/
theorem render_eq_of_beq_zeros :
    let tree bits := element "Input"
      (some [(.name "min", .nested [(.name "x", .attr (.scalar (.float (Float.ofBits bits)))),
        (.compound ["x", "y"], .attr (.list [.int 1, .float (Float.ofBits bits)]))])])
      (some [.text "hi", .element "br" none none])
    let a := tree 0
    let b := tree 0x8000000000000000
    a.DistinctKeys ∧ a.beq b = true ∧ a.keyOrder = b.keyOrder ∧
      ∀ options, a.render options = b.render options := by
  intro tree a b
  have hkeys : a.DistinctKeys := by
    refine .parent ?_ ?_
    · rintro q ⟨⟩
      refine .nested (by decide) ?_
      simp only [List.forall_mem_cons]
      refine ⟨.nested (by decide) ?_, nofun⟩
      simp only [List.forall_mem_cons]
      exact ⟨.attr _, .attr _, nofun⟩
    · simp only [List.forall_mem_cons]
      exact ⟨.text _, .bare nofun, nofun⟩
  have hbeq : a.beq b = true := by decide +kernel
  have horder : a.keyOrder = b.keyOrder := rfl
  exact ⟨hkeys, hbeq, horder, render_eq_of_beq hkeys hbeq horder⟩

/-- **The order of properties is written, but equality does not look at it.** -/
theorem render_ne_of_beq_swapped :
    let one : PropertyKey × PropertyValue := (.name "a", .attr (.scalar (.int 1)))
    let two : PropertyKey × PropertyValue := (.name "b", .attr (.scalar (.int 2)))
    let a := element "div" (some [one, two]) none
    let b := element "div" (some [two, one]) none
    a.beq b = true ∧ a.render {} = "<div a=\"1\" b=\"2\"></div>" ∧
      b.render {} = "<div b=\"2\" a=\"1\"></div>" ∧
      ¬∀ a b : Node, a.beq b = true → ∀ options, a.render options = b.render options := by
  intro one two a b
  have hbeq : a.beq b = true := by decide +kernel
  have ha : a.render {} = "<div a=\"1\" b=\"2\"></div>" := by decide +kernel
  have hb : b.render {} = "<div b=\"2\" a=\"1\"></div>" := by decide +kernel
  refine ⟨hbeq, ha, hb, fun h => ?_⟩
  have hab := h a b hbeq {}
  rw [ha, hb] at hab
  exact absurd hab (by decide)

end Node

end MarkupTree

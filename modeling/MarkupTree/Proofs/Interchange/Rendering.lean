import MarkupTree.Proofs.Attribute
import MarkupTree.Proofs.Interchange.Faithful
import MarkupTree.Proofs.Render

/-!
# Written forms of trees that come back

A mapping without doubles and with distinct names comes back with the same attributes, and so the
opening tag is the same: symbols and small natural numbers come back in other cases, but with the
same texts, and compound keys as the names that they make (`openTag_canon`).
-/

namespace MarkupTree

open OrderedMap

/-! ## Attributes -/

theorem Properties.leaves_canonEntries {p : Properties}
    (h : ∀ e ∈ p, ∀ name, Attributes.SameParts (e.2.canon.leaves name) (e.2.leaves name)) :
    Attributes.SameParts (leaves (canonEntries p)) (leaves p) := by
  refine leaves_sameParts ?_
  rw [canonEntries_eq, List.forall₂_map_left_iff, List.forall₂_same]
  exact fun e he => ⟨rfl, h e he⟩

theorem PropertyValue.leaves_canon {v : PropertyValue} (hfloat : v.NoFloat)
    (hnames : v.DistinctNames) (name : String) :
    Attributes.SameParts (v.canon.leaves name) (v.leaves name) := by
  induction hnames generalizing name with
  | attr a =>
    cases hfloat with
    | attr ha => exact congrArg (fun parts => [(name, parts)]) (AttributeValue.parts_canon ha)
  | @nested p hp _ ih =>
    cases hfloat with
    | nested hvalues =>
      -- No entry of the nested mapping is lost, as the names are distinct.
      have hcanon : (nested p).canon = nested (Properties.canonEntries p) :=
        congrArg nested (Properties.canon_of_distinct hp)
      rw [hcanon]
      exact leaves_nested_sameParts
        (Properties.leaves_canonEntries fun e he => ih e he (hvalues e he)) name

/-- A mapping comes back with attributes of the same names and texts. -/
theorem Properties.flatten_canon {p : Properties} (hfloat : (PropertyValue.nested p).NoFloat)
    (hnames : (PropertyValue.nested p).DistinctNames) :
    (flatten p.canon).SameParts (flatten p) := by
  cases hfloat with
  | nested hvalues =>
    cases hnames with
    | nested hp hnested =>
      rw [canon_of_distinct hp]
      exact flatten_sameParts (leaves_canonEntries fun e he =>
        PropertyValue.leaves_canon (hvalues e he) (hnested e he))

/-! ## Opening tags -/

namespace RenderOptions

variable (options : RenderOptions)

/-- The opening tag of an element is the same with the properties that come back. -/
theorem openTag_canon {p : Properties} (hfloat : (PropertyValue.nested p).NoFloat)
    (hnames : (PropertyValue.nested p).DistinctNames) (tag : String) :
    openTag options tag (some p.canon) = openTag options tag (some p) :=
  openTag_congr options (Properties.isEmpty_canon p)
    (Properties.flatten_canon hfloat hnames) tag

theorem openTag_canonProperties {p : Properties} (hfloat : (PropertyValue.nested p).NoFloat)
    (hnames : (PropertyValue.nested p).DistinctNames) (tag : String) :
    openTag options tag (Node.canonProperties (some p)) = openTag options tag (some p) := by
  rw [Node.canonProperties]
  split
  · rename_i h
    simp [openTag, h]
  · exact openTag_canon options hfloat hnames tag

end RenderOptions

/-! ## Trees -/

namespace Node

theorem canon_eq_mapProperties (n : Node) : n.canon = n.mapProperties canonProperties := by
  induction n using Node.induction with
  | text s => rfl
  | bare tag p => rfl
  | parent tag p ns ih =>
    rw [canon, mapProperties, canonAll_eq, mapPropertiesAll_eq, List.map_congr_left ih]

end Node

end MarkupTree

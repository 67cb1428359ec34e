import MarkupTree.Proofs.Attribute
import MarkupTree.Proofs.Render

/-!
# Writing each text of a sequence once

A sequence may be written with each text only where it comes first. What is left out then can be
left out before: `Scalar.firstTexts` takes the scalars out of a sequence whose text a scalar before
them has, and `Node.dedupe` does so for every sequence in a tree. Written with the option, a tree is
as the tree without them is written by default (`render_dedupe`). Sequences are looked at one by
one, after flattening as before it (`Properties.flatten_mapAttributes`), and single scalars stay as
they are.
-/

namespace MarkupTree

/-! ## Sequences -/

/-- The scalars of which the text is not that of a scalar before them; those in `before` come before
all of them. -/
def Scalar.firstTexts (before : List Scalar) : List Scalar → List Scalar
  | [] => []
  | s :: ss =>
    if s.text ∈ before.map text then firstTexts (s :: before) ss
    else s :: firstTexts (s :: before) ss

namespace Scalar

theorem firstTexts_sublist (before ss : List Scalar) : (firstTexts before ss).Sublist ss := by
  induction ss generalizing before with
  | nil => exact .slnil
  | cons s ss ih =>
    unfold firstTexts
    split
    · exact (ih _).cons s
    · exact (ih _).cons_cons s

/-- What is left has the texts that `before` has not, each where it comes first. -/
theorem map_text_firstTexts (before ss : List Scalar) :
    (firstTexts before ss).map text = ((ss.map text).removeAll (before.map text)).eraseDups := by
  induction ss generalizing before with
  | nil => rfl
  | cons s ss ih =>
    rw [firstTexts, List.map_cons, List.cons_removeAll]
    by_cases h : s.text ∈ before.map text
    · have hsame : (ss.map text).removeAll (s.text :: before.map text) =
          (ss.map text).removeAll (before.map text) := by
        refine List.filter_congr fun t _ => ?_
        by_cases ht : t = s.text
        · subst ht
          simp only [List.elem_eq_mem, List.mem_cons, h, or_true]
        · simp only [List.elem_eq_mem, List.mem_cons, ht, false_or]
      rw [if_pos h, if_neg (by simpa using h), ih, List.map_cons, hsame]
    · have hrest : ((ss.map text).removeAll (before.map text)).filter (fun t => !t == s.text) =
          (ss.map text).removeAll (s.text :: before.map text) := by
        rw [List.removeAll_cons, List.removeAll, List.removeAll, List.filter_filter,
          List.filter_filter]
        exact List.filter_congr fun t _ => Bool.and_comm _ _
      rw [if_neg h, if_pos (by simpa using h), List.eraseDups_cons, hrest, List.map_cons, ih,
        List.map_cons]

theorem map_text_firstTexts_nil (ss : List Scalar) :
    (firstTexts [] ss).map text = (ss.map text).eraseDups := by
  rw [map_text_firstTexts, List.map_nil, List.removeAll_nil]

end Scalar

namespace AttributeValue

/-- The value without the scalars of a sequence of which the text has come before. -/
def dedupe : AttributeValue → AttributeValue
  | .list items => .list (Scalar.firstTexts [] items)
  | .scalar s => .scalar s

theorem parts_dedupe (a : AttributeValue) : a.dedupe.parts = a.parts.eraseDups := by
  cases a with
  | list items => exact Scalar.map_text_firstTexts_nil items
  | scalar s => rfl

end AttributeValue

/-! ## Mappings -/

/-- The mapping with every sequence in it without the scalars of which the text has come before. -/
def Properties.dedupe (p : Properties) : Properties := mapAttributes AttributeValue.dedupe p

/-- The options by which a sequence is written with each of its texts once. -/
def RenderOptions.deduping : RenderOptions where
  dedupeAttributeValues := true

namespace RenderOptions

theorem formatValue_deduping (a : AttributeValue) :
    formatValue deduping a = formatValue {} a.dedupe := by
  simp [formatValue, deduping, AttributeValue.parts_dedupe]

theorem attributesText_deduping (p : Properties) :
    attributesText deduping p = attributesText {} p.dedupe := by
  rw [attributesText, attributesText, Properties.dedupe, Properties.flatten_mapAttributes,
    List.map_map]
  simp only [formatValue_deduping]
  rfl

theorem openTag_deduping (tag : String) (p : Option Properties) :
    openTag deduping tag p = openTag {} tag (p.map Properties.dedupe) := by
  cases p with
  | none => rfl
  | some p =>
    have hempty : p.dedupe.isEmpty = p.isEmpty := by cases p <;> rfl
    simp only [openTag, Option.map_some, hempty, attributesText_deduping]

end RenderOptions

/-! ## Trees -/

namespace Node

/-- The tree with every sequence in it without the scalars of which the text has come before. -/
def dedupe (n : Node) : Node := n.mapProperties (Option.map Properties.dedupe)

/-- **Writing each text of a sequence once is leaving the others out before writing.** The names of
attributes and their places stay; of the values only sequences change, each by itself. A scalar of a
sequence is left exactly if no scalar before it has its text, so no text is lost and none stays
twice: what is written are the texts of the scalars that are left. -/
theorem render_dedupe :
    (∀ n : Node, n.render { dedupeAttributeValues := true } = n.dedupe.render {}) ∧
    (∀ p : Properties, p.dedupe.flatten = p.flatten.map (Prod.map id AttributeValue.dedupe)) ∧
    (∀ s : Scalar, AttributeValue.dedupe (.scalar s) = .scalar s) ∧
    ∀ items : List Scalar, ∃ kept, AttributeValue.dedupe (.list items) = .list kept ∧
      kept.Sublist items ∧ kept.map Scalar.text = (items.map Scalar.text).eraseDups ∧
      RenderOptions.deduping.formatValue (.list items) =
        " ".intercalate (kept.map Scalar.text) ∧
      (kept.map Scalar.text).Nodup ∧
      ∀ text, text ∈ kept.map Scalar.text ↔ text ∈ items.map Scalar.text := by
  refine ⟨fun n => ?_, Properties.flatten_mapAttributes _, fun _ => rfl, fun items => ?_⟩
  · have htags : ∀ p : Option Properties, (∀ q ∈ p, True) → ∀ tag,
        RenderOptions.openTag {} tag (p.map Properties.dedupe) =
          RenderOptions.openTag RenderOptions.deduping tag p :=
      fun p _ tag => (RenderOptions.openTag_deduping tag p).symm
    exact (render_mapProperties htags (.of_forall (fun _ => trivial) n)).symm
  · have htexts := Scalar.map_text_firstTexts_nil items
    refine ⟨_, rfl, Scalar.firstTexts_sublist [] items, htexts, ?_, ?_, fun text => ?_⟩
    · exact RenderOptions.formatValue_deduping (.list items)
    · rw [htexts]
      exact OrderedMap.nodup_eraseDups _
    · rw [htexts, List.mem_eraseDups]

end Node

end MarkupTree

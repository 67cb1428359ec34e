import MarkupTree.Proofs.Interchange.Decode

/-!
# Round trips through text

The text of a tree can be read back in two ways, by `Node.ofText` and by `Node.decodeText`. What
comes back is not the tree itself: keys and some scalars are of other cases, and `ofText` drops
empty mappings. But either tree has the written form of the one that was saved
(`render_of_serialized`).
-/

namespace MarkupTree.Node

open Json

variable {n : Node}

/-- The text of a tree without doubles is the text of a value, up to the depth that is read. -/
theorem read_serialized (hfloat : n.NoFloat) (hdepth : n.encode.depth ≤ maxDepth) :
    Value.read n.serialized = .ok n.encode :=
  read_text (integral_encode hfloat) hdepth

theorem ofText_serialized (hfloat : n.NoFloat) (hdepth : n.encode.depth ≤ maxDepth) :
    ofText n.serialized = .ok n.canon :=
  ofText_ok_iff.2 ⟨n.encode, read_serialized hfloat hdepth, ofJson_toJson n⟩

variable (options : RenderOptions)

theorem render_canon (hfloat : n.NoFloat) (hnames : n.DistinctNames) :
    render n.canon options = render n options := by
  rw [canon_eq_mapProperties]
  refine render_mapProperties (fun p hp tag => ?_) (hfloat.and hnames)
  cases p with
  | none => rfl
  | some q => exact RenderOptions.openTag_canonProperties options (hp q rfl).1 (hp q rfl).2 tag

theorem render_mapProperties_canon (hfloat : n.NoFloat) (hnames : n.DistinctNames) :
    render (n.mapProperties (Option.map Properties.canon)) options = render n options := by
  refine render_mapProperties (fun p hp tag => ?_) (hfloat.and hnames)
  cases p with
  | none => rfl
  | some q => exact RenderOptions.openTag_canon options (hp q rfl).1 (hp q rfl).2 tag

/-- **The text of a tree is read back, in either way, as a tree with the same written form.** -/
theorem render_of_serialized (hfloat : n.NoFloat) (hnames : n.DistinctNames)
    (hdepth : n.encode.depth ≤ 127) :
    (∃ a b, ofText n.serialized = .ok a ∧ decodeText n.serialized = .ok b ∧
      ∀ options, render a options = render n options ∧ render b options = render n options) ∧
    renderJson n.serialized = .ok (render n) := by
  have htext := ofText_serialized hfloat hdepth
  refine ⟨⟨_, _, htext, decodeText_serialized hfloat hnames hdepth, fun options =>
    ⟨render_canon options hfloat hnames, render_mapProperties_canon options hfloat hnames⟩⟩, ?_⟩
  rw [renderJson, htext]
  exact congrArg Except.ok (render_canon {} hfloat hnames)

/-- A compound key, a symbol, the least integer and a small natural number, an empty nested mapping,
an empty mapping and an empty list, characters that are escaped and one beyond the first plane. -/
theorem renderJson_serialized_mixed :
    let n := element "DIV"
      (some [(.compound ["data", "x"], .attr (.scalar (.symbol "on"))),
        (.name "n", .attr (.list [.uint 7, .int (-9223372036854775808)])),
        (.name "aria", .nested [])])
      (some [text "\"\\\n\x01😀", element "br" (some []) none, element "p" none (some [])])
    n.NoFloat ∧ n.DistinctNames ∧ n.encode.depth ≤ 127 ∧ renderJson n.serialized =
      .ok "<div data-x=\"on\" n=\"7 -9223372036854775808\">\"\\\n\x01😀<br></br><p></p></div>" := by
  intro n
  have hfloat : n.NoFloat := by
    refine .parent ?_ ?_
    · rintro q ⟨⟩
      refine .nested ?_
      simp only [List.forall_mem_cons]
      exact ⟨.attr (by decide), .attr (by decide), .nested nofun, nofun⟩
    · simp only [List.forall_mem_cons]
      refine ⟨.text _, .bare ?_, .parent nofun nofun, nofun⟩
      rintro q ⟨⟩
      exact .nested nofun
  have hnames : n.DistinctNames := by
    refine .parent ?_ ?_
    · rintro q ⟨⟩
      refine .nested (by decide +kernel) ?_
      simp only [List.forall_mem_cons]
      exact ⟨.attr _, .attr _, .nested .nil nofun, nofun⟩
    · simp only [List.forall_mem_cons]
      refine ⟨.text _, .bare ?_, .parent nofun nofun, nofun⟩
      rintro q ⟨⟩
      exact .nested .nil nofun
  have hdepth : n.encode.depth ≤ 127 := by decide +kernel
  have hrender : n.render =
      "<div data-x=\"on\" n=\"7 -9223372036854775808\">\"\\\n\x01😀<br></br><p></p></div>" := by
    decide +kernel
  exact ⟨hfloat, hnames, hdepth,
    (render_of_serialized hfloat hnames hdepth).2.trans (congrArg Except.ok hrender)⟩

end MarkupTree.Node

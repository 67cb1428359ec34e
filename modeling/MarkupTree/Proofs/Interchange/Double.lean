import MarkupTree.Proofs.Interchange.RoundTrip
import MarkupTree.Proofs.Json.Reread

/-!
# Round trips of doubles

The text of any tree is the text of a value, and read as that value with the doubles that come back
(`read_serialized_reread`). For an element with a double as its only property that says what it is
written as after the trip (`renderJson_double`).
-/

namespace MarkupTree

open Json Decimal Decimal.Binary64

/-! ## Numbers in saved trees -/

theorem Scalar.signed_toJson (s : Scalar) : s.toJson.Every Number.Signed := by
  cases s with
  | bool b => exact .bool b
  | int n => exact .number (Number.isInteger_ofInt64 n).signed
  | uint n => exact .number trivial
  | float x =>
    rw [toJson]
    split
    · exact .number trivial
    · exact .null
  | str s => exact .string s
  | symbol s => exact .string s

theorem PropertyValue.signed_toJson (v : PropertyValue) : v.toJson.Every Number.Signed := by
  induction v using PropertyValue.induction with
  | attr a =>
    cases a with
    | list items => exact .array (List.forall_mem_map.2 fun s _ => s.signed_toJson)
    | scalar s => exact s.signed_toJson
  | nested p ih =>
    simpa [toJson] using .object (List.forall_mem_map.2 ih)

namespace Node

theorem signed_encode (n : Node) : n.encode.Every Number.Signed :=
  every_encode (Every.of_forall (fun p => (PropertyValue.nested p).signed_toJson) n)

/-- **The text of a tree is read as its value with the doubles that come back.** -/
theorem read_serialized_reread {n : Node} (hdepth : n.encode.depth ≤ maxDepth) :
    Value.read n.serialized = .ok (n.encode.mapNumbers Number.reread) :=
  Value.read_text_reread n.signed_encode hdepth

/-! ## One double -/

/-- The element with a double as its only property. -/
def double (tag : String) (key : PropertyKey) (x : Float) : Node :=
  .element tag (some [(key, .attr (.scalar (.float x)))]) none

variable (tag : String) (key : PropertyKey) {x y : Float}

theorem render_double (x : Float) : render (double tag key x) =
    "<" ++ Text.lowercase tag ++ (" " ++ (key.flat ++ "=\"" ++ Scalar.floatText x ++ "\"")) ++ ">" ++
      RenderOptions.closeTag tag :=
  render_bare {} tag _

theorem render_double_eq_iff : render (double tag key x) = render (double tag key y) ↔
    Scalar.floatText x = Scalar.floatText y := by
  rw [render_double, render_double]
  simp

theorem encode_double (h : (ofFloat x).isFinite) : (double tag key x).encode = .object
    [("type", .string elementType), ("tag", .string tag),
      ("properties", .object [(key.flat, .number (.float x h))])] := by
  have hx : (Scalar.float x).toJson = .number (.float x h) := dif_pos h
  rw [← hx]
  rfl

theorem mapNumbers_encode_double (h : (ofFloat x).isFinite) :
    (double tag key x).encode.mapNumbers Number.reread = (double tag key (reread x)).encode := by
  rw [encode_double tag key h, encode_double tag key (isFinite_reread h)]
  rfl

theorem canon_double (h : (ofFloat x).isFinite) :
    (double tag key x).canon = double tag (.name key.flat) x := by
  have hx : (Scalar.float x).canon = .float x := if_pos h
  show Node.element tag (some [(.name key.flat, .attr (.scalar (Scalar.float x).canon))]) none = _
  rw [hx]
  rfl

theorem ofText_double (h : (ofFloat x).isFinite) :
    ofText (double tag key x).serialized = .ok (double tag (.name key.flat) (reread x)) := by
  have hdepth : (double tag key x).encode.depth ≤ maxDepth := by
    rw [encode_double tag key h]
    exact Nat.le_of_ble_eq_true rfl
  have hread := read_serialized_reread hdepth
  rw [mapNumbers_encode_double tag key h] at hread
  refine ofText_ok_iff.2 ⟨_, hread, ?_⟩
  rw [← canon_double tag key (isFinite_reread h)]
  exact ofJson_toJson _

theorem renderJson_serialized_double (h : (ofFloat x).isFinite) :
    renderJson (double tag key x).serialized = .ok (render (double tag key (reread x))) := by
  rw [renderJson, ofText_double tag key h]
  rfl

theorem renderJson_of_renders_ne (h : (ofFloat x).isFinite) {s : String}
    (hread : render (double tag key (reread x)) = s) (hne : render (double tag key x) ≠ s) :
    renderJson (double tag key x).serialized = .ok s ∧
      renderJson (double tag key x).serialized ≠ .ok (render (double tag key x)) := by
  rw [renderJson_serialized_double tag key h, hread]
  exact ⟨rfl, fun heq => hne (Except.ok.inj heq).symm⟩

/-- **The text of an element with a finite double as its only property is always read**, and written
as the element with the double that comes back, which is at most eight units in the last place away.
That is how the element itself is written if and only if the two doubles are equal, and they are if
digits and power of ten are doubles. -/
theorem renderJson_double (h : (ofFloat x).isFinite) :
    renderJson (double tag key x).serialized = .ok (render (double tag key (reread x))) ∧
    (ofFloat x).Within 8 (ofFloat (reread x)) ∧
    (renderJson (double tag key x).serialized = .ok (render (double tag key x)) ↔
      (reread x == x) = true) ∧
    (Exact (scanned x) → (reread x == x) = true) := by
  have hrender := renderJson_serialized_double tag key h
  refine ⟨hrender, within_reread h, ?_, reread_beq_of_exact h⟩
  rw [hrender, Except.ok.injEq, render_double_eq_iff,
    Scalar.floatText_eq_iff (isFinite_reread h) h]

/-- A fraction below zero that is written with an exponent comes back, here under a compound key. -/
theorem renderJson_double_exponent :
    (ofFloat (-2.5e-7)).isFinite ∧ Exact (scanned (-2.5e-7)) ∧
      renderJson (double "P" (.compound ["data", "x"]) (-2.5e-7)).serialized =
        .ok "<p data-x=\"-0.00000025\"></p>" := by
  have hfinite : (ofFloat (-2.5e-7)).isFinite := by decide +kernel
  have hexact : Exact (scanned (-2.5e-7)) := exact_of_le (by decide +kernel) (by decide +kernel)
  have hrender : render (double "P" (.compound ["data", "x"]) (-2.5e-7)) =
      "<p data-x=\"-0.00000025\"></p>" := by decide +kernel
  obtain ⟨-, -, hiff, hsame⟩ := renderJson_double "P" (.compound ["data", "x"]) hfinite
  exact ⟨hfinite, hexact, (hiff.2 (hsame hexact)).trans (congrArg Except.ok hrender)⟩

/-- The greatest odd double does not: with the zero behind its point it has seventeen digits, which
are rounded before they are divided by ten. Nor does `1e-30`, of which the power of ten is no
double. -/
theorem renderJson_double_odd :
    ((ofFloat 9007199254740991).isFinite ∧
      renderJson (double "div" (.name "a") 9007199254740991).serialized =
        .ok "<div a=\"9007199254740990\"></div>" ∧
      renderJson (double "div" (.name "a") 9007199254740991).serialized ≠
        .ok (render (double "div" (.name "a") 9007199254740991))) ∧
    (ofFloat 1e-30).isFinite ∧
      renderJson (double "div" (.name "a") 1e-30).serialized =
        .ok "<div a=\"0.0000000000000000000000000000009999999999999999\"></div>" ∧
      renderJson (double "div" (.name "a") 1e-30).serialized ≠
        .ok (render (double "div" (.name "a") 1e-30)) := by
  have hodd : (ofFloat 9007199254740991).isFinite := by decide +kernel
  have hsmall : (ofFloat 1e-30).isFinite := by decide +kernel
  refine ⟨⟨hodd, ?_⟩, hsmall, ?_⟩
  · apply renderJson_of_renders_ne "div" (.name "a") hodd
    · decide +kernel
    · decide +kernel
  · apply renderJson_of_renders_ne "div" (.name "a") hsmall
    · decide +kernel
    · decide +kernel

end Node

end MarkupTree

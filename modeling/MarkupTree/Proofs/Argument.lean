import MarkupTree.Argument
import MarkupTree.Proofs.Builder
import MarkupTree.Proofs.Render

/-!
# Arguments as steps of building

An argument of an accepted shape stands for a step of building (`Argument.step?`), and the arguments
of a tag for the steps that are taken (`Argument.steps`). A tag with accepted arguments
(`Argument.Accepted`) defines the node that a builder makes after these steps
(`Node.define_of_accepted`). All other arguments are refused, and the message says which of the two
is at fault (`Node.define_of_not_accepted`). So the table of shapes and the builder agree, and
nothing beyond the table is accepted (`Node.define_eq_build`). What the call of a common tag defines
is written under the name of the call (`Node.exists_render_of_call?`).
-/

namespace MarkupTree

open OrderedMap

namespace Argument

/-- The step of building that an argument stands for, if it has an accepted shape. -/
def step? : Argument → Option Builder.Step
  | .properties p => some (.properties p)
  | .children nodes => some (.children nodes)
  | .text s => some (.text s)
  | .integer _ | .number _ | .bool _ | .symbol _ | .node _ => none

/-- The steps that the arguments of a tag stand for. Without a first argument there are none,
whatever the second one is. -/
def steps : Option Argument → Option Argument → List Builder.Step
  | none, _ => []
  | some a, second => a.step?.toList ++ (second.bind step?).toList

/-- The argument is a mapping of properties. -/
def IsProperties (a : Argument) : Prop := ∃ p, a = .properties p

/-- The argument says what the children are: nodes, or a text that is the only one. -/
def IsContent (a : Argument) : Prop := (∃ nodes, a = .children nodes) ∨ ∃ s, a = .text s

/-- The arguments of a tag that are accepted: no first one, properties alone or with content after
them, or content alone. -/
def Accepted (first second : Option Argument) : Prop :=
  first = none ∨
    (∃ a, first = some a ∧ a.IsProperties ∧ ∀ b ∈ second, b.IsContent) ∨
    ∃ a, first = some a ∧ a.IsContent ∧ second = none

/-- A mapping that is given as an argument holds each of its keys once. -/
def IsMap (a : Argument) : Prop := ∀ p, a = .properties p → (keys p).Nodup

end Argument

/-! ## Accepted arguments -/

theorem Builder.start_step_properties (tag : String) {p : Properties} (h : (keys p).Nodup) :
    (start tag).step (.properties p) = { tag := tag, properties := p } := by
  have hp : extend [] p = p := ofEntries_of_nodup h
  show (start tag).setProperties p = _
  rw [setProperties, start, hp]

namespace Node

open Argument

variable (tag : String) {first second : Option Argument}

/-- **Accepted arguments define the node of a builder** that takes the steps that they stand for. -/
theorem define_of_accepted (h : Accepted first second) (hmap : ∀ a ∈ first, a.IsMap) :
    define tag first second =
      .ok ((Builder.start tag).run (steps first second)).build.toNode := by
  obtain rfl | ⟨a, rfl, ⟨p, rfl⟩, hsecond⟩ | ⟨a, rfl, hcontent, rfl⟩ := h
  · rfl
  · have hstart := Builder.start_step_properties tag (hmap _ rfl p rfl)
    rcases second with _ | b
    · show _ = Except.ok ((Builder.start tag).step (.properties p)).build.toNode
      rw [hstart]
      rfl
    · obtain ⟨nodes, rfl⟩ | ⟨s, rfl⟩ := hsecond b rfl
      · show _ = Except.ok (((Builder.start tag).step (.properties p)).step
          (.children nodes)).build.toNode
        rw [hstart]
        rfl
      · show _ = Except.ok (((Builder.start tag).step (.properties p)).step (.text s)).build.toNode
        rw [hstart]
        rfl
  · obtain ⟨nodes, rfl⟩ | ⟨s, rfl⟩ := hcontent <;> rfl

theorem exists_of_accepted (h : Accepted first second) :
    ∃ e, Element.ofArguments tag first second = .ok e := by
  obtain rfl | ⟨a, rfl, ⟨p, rfl⟩, hsecond⟩ | ⟨a, rfl, hcontent, rfl⟩ := h
  · exact ⟨_, rfl⟩
  · rcases second with _ | b
    · exact ⟨_, rfl⟩
    · obtain ⟨nodes, rfl⟩ | ⟨s, rfl⟩ := hsecond b rfl <;> exact ⟨_, rfl⟩
  · obtain ⟨nodes, rfl⟩ | ⟨s, rfl⟩ := hcontent <;> exact ⟨_, rfl⟩

/-! ## Refused arguments -/

theorem ofArguments_of_not_shape {a : Argument} (h : ¬(a.IsProperties ∨ a.IsContent))
    (second : Option Argument) :
    Element.ofArguments tag (some a) second = .error (.first a) := by
  cases a with
  | properties p => exact absurd (.inl ⟨p, rfl⟩) h
  | children nodes => exact absurd (.inr (.inl ⟨nodes, rfl⟩)) h
  | text s => exact absurd (.inr (.inr ⟨s, rfl⟩)) h
  | integer | number | bool | symbol | node => rfl

theorem ofArguments_afterProperties (p : Properties) {b : Argument} (h : ¬b.IsContent) :
    Element.ofArguments tag (some (.properties p)) (some b) = .error (.afterProperties b) := by
  cases b with
  | children nodes => exact absurd (.inl ⟨nodes, rfl⟩) h
  | text s => exact absurd (.inr ⟨s, rfl⟩) h
  | properties | integer | number | bool | symbol | node => rfl

theorem ofArguments_afterContent {a : Argument} (h : a.IsContent) (b : Argument) :
    Element.ofArguments tag (some a) (some b) = .error (.afterContent a b) := by
  obtain ⟨nodes, rfl⟩ | ⟨s, rfl⟩ := h <;> rfl

theorem exists_message_first (a : Argument) : ∃ more,
    (Misuse.first a).message tag = "first argument of `" ++ tag ++ "`" ++ more := by
  refine ⟨" must be a properties mapping, a children sequence, " ++
    ("a text string, or absent, found " ++ a.typeName), ?_⟩
  unfold Misuse.message
  simp [← String.toList_inj]

theorem exists_message_afterProperties (b : Argument) : ∃ more,
    (Misuse.afterProperties b).message tag = "second argument of `" ++ tag ++ "`" ++ more := by
  refine ⟨" must be a children sequence or a text string " ++
    ("when the first is a properties mapping, found " ++ b.typeName), ?_⟩
  unfold Misuse.message
  simp [← String.toList_inj]

theorem exists_message_afterContent (a b : Argument) : ∃ more,
    (Misuse.afterContent a b).message tag = "second argument of `" ++ tag ++ "`" ++ more := by
  refine ⟨" is only accepted when the first is a properties " ++ ("mapping; first is a " ++
    a.typeName ++ ", second is a " ++ b.typeName), ?_⟩
  unfold Misuse.message
  simp [← String.toList_inj]

/-- **All other arguments are refused**: the second one is at fault if the first one is properties
or content, and the first one otherwise. -/
theorem define_of_not_accepted (h : ¬Accepted first second) : ∃ f,
    define tag first second = .error f ∧ f.kind = .definition ∧
      ((∃ a ∈ first, a.IsProperties ∨ a.IsContent) →
        ∃ more, f.message = "second argument of `" ++ tag ++ "`" ++ more) ∧
      ((¬∃ a ∈ first, a.IsProperties ∨ a.IsContent) →
        ∃ more, f.message = "first argument of `" ++ tag ++ "`" ++ more) := by
  have herror {m : Misuse} (hm : Element.ofArguments tag first second = .error m) :
      define tag first second = .error (m.toFault tag) := by rw [define, hm]
  rcases first with _ | a
  · exact absurd (.inl rfl) h
  by_cases ha : a.IsProperties ∨ a.IsContent
  · have hshape : ∃ c ∈ some a, c.IsProperties ∨ c.IsContent := ⟨a, rfl, ha⟩
    rcases second with _ | b
    · refine absurd (.inr ?_) h
      exact ha.imp (fun hp => ⟨a, rfl, hp, nofun⟩) fun hc => ⟨a, rfl, hc, rfl⟩
    · obtain ⟨p, rfl⟩ | hcontent := ha
      · have hb : ¬b.IsContent := fun hb => h (.inr (.inl ⟨_, rfl, ⟨p, rfl⟩, by rintro c ⟨⟩; exact hb⟩))
        exact ⟨_, herror (ofArguments_afterProperties tag p hb), rfl,
          fun _ => exists_message_afterProperties tag b, fun hno => absurd hshape hno⟩
      · exact ⟨_, herror (ofArguments_afterContent tag hcontent b), rfl,
          fun _ => exists_message_afterContent tag a b, fun hno => absurd hshape hno⟩
  · refine ⟨_, herror (ofArguments_of_not_shape tag ha second), rfl, ?_, fun _ =>
      exists_message_first tag a⟩
    rintro ⟨c, ⟨⟩, hc⟩
    exact absurd hc ha

/-- **The table of shapes is exact, and the builder agrees with it.** -/
theorem define_eq_build (first second : Option Argument) :
    ((∃ n, define tag first second = .ok n) ↔ Accepted first second) ∧
    (Accepted first second → (∀ a ∈ first, a.IsMap) → define tag first second =
      .ok ((Builder.start tag).run (steps first second)).build.toNode) ∧
    (¬Accepted first second → ∃ f, define tag first second = .error f ∧ f.kind = .definition ∧
      ((∃ a ∈ first, a.IsProperties ∨ a.IsContent) →
        ∃ more, f.message = "second argument of `" ++ tag ++ "`" ++ more) ∧
      ((¬∃ a ∈ first, a.IsProperties ∨ a.IsContent) →
        ∃ more, f.message = "first argument of `" ++ tag ++ "`" ++ more)) := by
  refine ⟨⟨fun ⟨n, hn⟩ => ?_, fun h => ?_⟩, define_of_accepted tag, define_of_not_accepted tag⟩
  · refine Classical.byContradiction fun h => ?_
    obtain ⟨f, hf, -⟩ := define_of_not_accepted tag h
    rw [hf] at hn
    cases hn
  · obtain ⟨e, he⟩ := exists_of_accepted tag h
    exact ⟨e.toNode, by rw [define, he]⟩

/-- Properties with a text after them, and a text with properties after it. -/
theorem define_eq_build_swapped :
    let p : Properties :=
      [(.name "href", .attr (.scalar (.str "/"))), (.compound ["x", "y"], .nested [])]
    let properties := Argument.properties p
    let home := Argument.text "Home"
    Accepted (some properties) (some home) ∧ (∀ a ∈ some properties, a.IsMap) ∧
      define "a" (some properties) (some home) =
        .ok ((Builder.start "a").run [.properties p, .text "Home"]).build.toNode ∧
      define "a" (some properties) (some home) =
        .ok (.element "a" (some p) (some [.text "Home"])) ∧
      ¬Accepted (some home) (some properties) ∧
      (∃ a ∈ some home, a.IsProperties ∨ a.IsContent) ∧
      ∃ f, define "a" (some home) (some properties) = .error f ∧ f.kind = .definition ∧
        ∃ more, f.message = "second argument of `" ++ "a" ++ "`" ++ more := by
  intro p properties home
  have haccepted : Accepted (some properties) (some home) := by
    refine .inr (.inl ⟨_, rfl, ⟨p, rfl⟩, ?_⟩)
    rintro b ⟨⟩
    exact .inr ⟨_, rfl⟩
  have hmap : ∀ a ∈ some properties, a.IsMap := by
    rintro a ⟨⟩ q hq
    obtain rfl : p = q := Argument.properties.inj hq
    decide
  have hrefused : ¬Accepted (some home) (some properties) := by
    rintro (⟨⟨⟩⟩ | ⟨a, ⟨⟩, ⟨q, hq⟩, -⟩ | ⟨a, -, -, ⟨⟩⟩)
    cases (show Argument.text "Home" = .properties q from hq)
  have hcontent : ∃ a ∈ some home, a.IsProperties ∨ a.IsContent :=
    ⟨home, rfl, .inr (.inr ⟨_, rfl⟩)⟩
  obtain ⟨-, hbuild, -⟩ := define_eq_build "a" (some properties) (some home)
  obtain ⟨-, -, hrefuse⟩ := define_eq_build "a" (some home) (some properties)
  obtain ⟨f, hf, hkind, hsecond, -⟩ := hrefuse hrefused
  have hdefine := hbuild haccepted hmap
  exact ⟨haccepted, hmap, hdefine, hdefine.trans rfl, hrefused, hcontent, f, hf, hkind,
    hsecond hcontent⟩

/-! ## Common tags -/

theorem exists_of_define {tag : String} {first second : Option Argument} {n : Node}
    (h : define tag first second = .ok n) : ∃ p cs, n = .element tag p cs := by
  unfold define at h
  split at h
  · rename_i e he
    cases h
    unfold Element.ofArguments at he
    split at he <;> cases he <;> exact ⟨_, _, rfl⟩
  · cases h

/-- The common tags are in lower case. -/
theorem lowercase_of_mem_commonTags : ∀ tag ∈ commonTags, Text.lowercase tag = tag := by
  decide +kernel

/-- What the call of a common tag defines is written under the name of the call. -/
theorem exists_render_of_call? (options : RenderOptions) {tag : String}
    {first second : Option Argument} {n : Node} (h : call? tag first second = some (.ok n)) :
    ∃ more, n.render options = "<" ++ tag ++ more ++ "</" ++ tag ++ ">" := by
  unfold call? at h
  split at h
  · rename_i htag
    obtain ⟨p, cs, rfl⟩ := exists_of_define (Option.some.inj h)
    have hlower := lowercase_of_mem_commonTags tag htag
    obtain ⟨attributes, hopen⟩ : ∃ attributes,
        RenderOptions.openTag options tag p = "<" ++ tag ++ attributes ++ ">" := by
      unfold RenderOptions.openTag
      rw [hlower]
      exact ⟨_, rfl⟩
    rw [render_element, hopen, RenderOptions.closeTag, hlower]
    refine ⟨attributes ++ (">" ++ String.join ((cs.getD []).map (render · options))), ?_⟩
    simp only [String.append_assoc]
  · cases h

end Node

end MarkupTree

import MarkupTree.Builder
import MarkupTree.Proofs.OrderedMap

/-!
# What a builder has gathered

A step of building sets entries (`Step.entries`) or adds nodes (`Step.nodes`), and leaves the rest
of the builder as it is (`step_eq`). After any number of steps a builder holds what it held before,
with the entries of all steps set one by one and the nodes of all steps added (`run_eq`); so the
element that it makes is a record of the steps (`build_run`). Steps about properties and steps about
children do not get in each other's way: only the order within each of the two kinds counts
(`run_of_same_kinds`).
-/

namespace MarkupTree.Builder

open OrderedMap

/-! ## One step -/

namespace Step

/-- Whether the step is about children; every other step is about properties. -/
def givesChildren : Step → Bool
  | .property .. | .properties _ => false
  | .child _ | .children _ | .text _ => true

/-- The entries that the step sets, in order. -/
def entries : Step → List (PropertyKey × PropertyValue)
  | .property k v => [(k, v)]
  | .properties p => p
  | .child _ | .children _ | .text _ => []

/-- The nodes that the step adds, in order. -/
def nodes : Step → List Node
  | .property .. | .properties _ => []
  | .child n => [n]
  | .children ns => ns
  | .text s => [.text s]

theorem entries_of_givesChildren {s : Step} (h : s.givesChildren = true) : s.entries = [] := by
  cases s with
  | property | properties => cases h
  | child | children | text => rfl

theorem nodes_of_not_givesChildren {s : Step} (h : s.givesChildren = false) : s.nodes = [] := by
  cases s with
  | property | properties => rfl
  | child | children | text => cases h

end Step

/-- **A step touches one part of the builder**, and adds to what is there. -/
theorem step_eq (b : Builder) (s : Step) : b.step s =
    { tag := b.tag
      properties := extend b.properties s.entries
      children :=
        if s.givesChildren then some (b.children.getD [] ++ s.nodes) else b.children } := by
  cases s <;> rfl

/-! ## All steps -/

theorem flatMap_nodes_of_not_any {steps : List Step} (h : steps.any Step.givesChildren = false) :
    steps.flatMap Step.nodes = [] := by
  rw [List.any_eq_false] at h
  refine List.flatMap_eq_nil_iff.2 fun s hs => Step.nodes_of_not_givesChildren ?_
  simpa using h s hs

/-- **What a builder holds after steps**: the entries of all steps are set in order, and the nodes
of all steps are added in order; children are there if they were before or if a step is about them.
-/
theorem run_eq (b : Builder) (steps : List Step) : b.run steps =
    { tag := b.tag
      properties := extend b.properties (steps.flatMap Step.entries)
      children :=
        if steps.any Step.givesChildren then
          some (b.children.getD [] ++ steps.flatMap Step.nodes)
        else b.children } := by
  induction steps generalizing b with
  | nil => rfl
  | cons s steps ih =>
    change (b.step s).run steps = _
    rw [ih, step_eq, List.flatMap_cons, List.flatMap_cons, extend_append, List.any_cons]
    cases hs : s.givesChildren with
    | false => simp [Step.nodes_of_not_givesChildren hs]
    | true =>
      by_cases hsteps : steps.any Step.givesChildren = true
      · simp [hsteps]
      · -- No later step adds nodes, so the list that is there after `s` stays.
        have hnodes := flatMap_nodes_of_not_any (by simpa using hsteps)
        simp [hsteps, hnodes]

/-! ## Steps of the two kinds -/

theorem flatMap_entries_filter (steps : List Step) :
    (steps.filter fun s => !s.givesChildren).flatMap Step.entries =
      steps.flatMap Step.entries := by
  induction steps with
  | nil => rfl
  | cons s steps ih =>
    cases hs : s.givesChildren with
    | false => simp [hs, ih]
    | true => simp [hs, ih, Step.entries_of_givesChildren hs]

theorem flatMap_nodes_filter (steps : List Step) :
    (steps.filter Step.givesChildren).flatMap Step.nodes = steps.flatMap Step.nodes := by
  induction steps with
  | nil => rfl
  | cons s steps ih =>
    cases hs : s.givesChildren with
    | false => simp [hs, ih, Step.nodes_of_not_givesChildren hs]
    | true => simp [hs, ih]

theorem any_filter_givesChildren (steps : List Step) :
    (steps.filter Step.givesChildren).any Step.givesChildren =
      steps.any Step.givesChildren := by
  simp [List.any_filter]

/-- **The two kinds of steps may be mixed in any way**: a builder comes to the same if the steps
about properties are the same in the same order, and so are the steps about children. -/
theorem run_of_same_kinds {steps steps' : List Step}
    (hproperties : (steps.filter fun s => !s.givesChildren) =
      steps'.filter fun s => !s.givesChildren)
    (hchildren : steps.filter Step.givesChildren = steps'.filter Step.givesChildren)
    (b : Builder) : b.run steps = b.run steps' := by
  rw [run_eq, run_eq, ← flatMap_entries_filter steps, ← flatMap_nodes_filter steps,
    ← any_filter_givesChildren steps, hproperties, hchildren, flatMap_entries_filter,
    flatMap_nodes_filter, any_filter_givesChildren]

theorem step_comm (b : Builder) {s t : Step} (h : s.givesChildren ≠ t.givesChildren) :
    (b.step s).step t = (b.step t).step s := by
  show b.run [s, t] = b.run [t, s]
  cases hs : s.givesChildren with
  | false =>
    have ht : t.givesChildren = true := by simpa [hs] using h
    apply run_of_same_kinds <;> simp [hs, ht]
  | true =>
    have ht : t.givesChildren = false := by simpa [hs] using h
    apply run_of_same_kinds <;> simp [hs, ht]

@[simp] theorem run_append (b : Builder) (steps steps' : List Step) :
    b.run (steps ++ steps') = (b.run steps).run steps' :=
  List.foldl_append

theorem run_map_property (b : Builder) (p : Properties) :
    b.run (p.map fun e => .property e.1 e.2) = b.step (.properties p) := by
  induction p generalizing b with
  | nil => rfl
  | cons e p ih => exact ih (b.step (.property e.1 e.2))

/-! ## The element that is made -/

theorem build_toNode (b : Builder) : b.build.toNode =
    .element b.tag (if b.properties.isEmpty then none else some b.properties) b.children := by
  obtain ⟨tag, p, cs⟩ := b
  cases cs <;> rfl

/-- **A builder keeps a record of its steps.** The element that it makes has the entries of all
steps as properties, set one by one: a repeated key has its last value at its first place. Its
children are the nodes of all steps, and absent just if no step is about children. -/
theorem build_run :
    (∀ (tag : String) (steps : List Step), ((start tag).run steps).build.toNode =
      .element tag
        (if (steps.flatMap Step.entries).isEmpty then none
          else some (ofEntries (steps.flatMap Step.entries)))
        (if steps.any Step.givesChildren then some (steps.flatMap Step.nodes) else none)) ∧
    (∀ steps : List Step, let p := ofEntries (steps.flatMap Step.entries)
      keys p = (keys (steps.flatMap Step.entries)).eraseDups ∧ (keys p).Nodup ∧
      ∀ k v, (k, v) ∈ p ↔ ∃ before after,
        steps.flatMap Step.entries = before ++ (k, v) :: after ∧ k ∉ keys after) ∧
    (∀ (b : Builder) (s t : Step), s.givesChildren ≠ t.givesChildren →
      (b.step s).step t = (b.step t).step s) ∧
    (∀ (b : Builder) (steps steps' : List Step),
      (steps.filter fun s => !s.givesChildren) = (steps'.filter fun s => !s.givesChildren) →
      steps.filter Step.givesChildren = steps'.filter Step.givesChildren →
      b.run steps = b.run steps') ∧
    ∀ (b : Builder) (before after : List Step) (p : Properties),
      b.run (before ++ .properties p :: after) =
        b.run (before ++ p.map (fun e => .property e.1 e.2) ++ after) := by
  refine ⟨fun tag steps => ?_, fun steps => ?_, fun b s t h => step_comm b h,
    fun b steps steps' hp hc => run_of_same_kinds hp hc b, fun b before after p => ?_⟩
  · have hempty : (ofEntries (steps.flatMap Step.entries)).isEmpty =
        (steps.flatMap Step.entries).isEmpty := by
      rw [Bool.eq_iff_iff, List.isEmpty_iff, List.isEmpty_iff, ofEntries_eq_nil_iff]
    rw [run_eq, build_toNode]
    show Node.element tag (if (ofEntries _).isEmpty then none else some (ofEntries _)) _ = _
    rw [hempty]
    rfl
  · exact ⟨keys_ofEntries _, nodup_keys_ofEntries _, fun k v => mem_ofEntries_iff⟩
  · rw [run_append, run_append, run_append, run_map_property]
    rfl

/-- Steps of all kinds mixed: a name is given again, and a key of the same name in two parts is
another key; the first step about children gives none. -/
theorem build_run_mixed :
    let steps : List Step := [.property (.name "a-b") (.attr (.scalar (.int 1))), .children [],
      .properties [(.compound ["a", "b"], .nested []),
        (.name "a-b", .attr (.scalar (.str "z")))],
      .text "hi", .property (.name "c") (.attr (.list [])), .child (.element "br" none none)]
    let moved : List Step := [.children [], .text "hi", .child (.element "br" none none),
      .property (.name "a-b") (.attr (.scalar (.int 1))),
      .properties [(.compound ["a", "b"], .nested []),
        (.name "a-b", .attr (.scalar (.str "z")))],
      .property (.name "c") (.attr (.list []))]
    let n : Node := .element "P"
      (some [(.name "a-b", .attr (.scalar (.str "z"))), (.compound ["a", "b"], .nested []),
        (.name "c", .attr (.list []))])
      (some [.text "hi", .element "br" none none])
    ((start "P").run steps).build.toNode = n ∧ (start "P").run steps = (start "P").run moved ∧
      Step.givesChildren (.text "hi") ≠ Step.givesChildren (.properties []) ∧
      ((start "P").step (.text "hi")).step (.properties []) =
        ((start "P").step (.properties [])).step (.text "hi") := by
  intro steps moved n
  obtain ⟨hbuild, -, hcomm, hkinds, -⟩ := build_run
  exact ⟨hbuild "P" steps, hkinds _ steps moved rfl rfl, by decide, hcomm _ _ _ (by decide)⟩

end MarkupTree.Builder

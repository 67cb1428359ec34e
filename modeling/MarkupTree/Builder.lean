import MarkupTree.Node

/-!
# Building elements step by step

A builder gathers properties and children one step at a time. Steps about properties and steps about
children do not touch each other's part of the builder.
-/

namespace MarkupTree

/-- An element in the making. Children are absent until a step gives some, even if it gives none. -/
structure Builder where
  tag : String
  properties : Properties := []
  children : Option (List Node) := none

namespace Builder

/-- A builder that has gathered nothing. -/
def start (tag : String) : Builder where
  tag := tag

/-- Sets one property. -/
def property (b : Builder) (k : PropertyKey) (v : PropertyValue) : Builder :=
  { b with properties := OrderedMap.insert k v b.properties }

/-- Sets the entries of a mapping in order. -/
def setProperties (b : Builder) (p : Properties) : Builder :=
  { b with properties := OrderedMap.extend b.properties p }

/-- Adds children at the end. -/
def addChildren (b : Builder) (nodes : List Node) : Builder :=
  { b with children := some (b.children.getD [] ++ nodes) }

/-- Adds one child at the end. -/
def child (b : Builder) (n : Node) : Builder := b.addChildren [n]

/-- Adds a text child at the end. -/
def text (b : Builder) (s : String) : Builder := b.child (.text s)

/-- The element that the builder has gathered; a mapping without entries is stored as absent. -/
def build (b : Builder) : Element :=
  let e := (Element.bare b.tag).withProperties b.properties
  match b.children with
  | some nodes => e.withChildren nodes
  | none => e

/-- One step of building. -/
inductive Step
  | property (key : PropertyKey) (value : PropertyValue)
  | properties (p : Properties)
  | child (n : Node)
  | children (nodes : List Node)
  | text (value : String)

/-- Takes one step. -/
def step (b : Builder) : Step → Builder
  | .property k v => b.property k v
  | .properties p => b.setProperties p
  | .child n => b.child n
  | .children nodes => b.addChildren nodes
  | .text s => b.text s

/-- Takes all steps in order. -/
def run (b : Builder) (steps : List Step) : Builder := steps.foldl step b

end Builder

end MarkupTree

import MarkupTree.Property

/-!
# Markup trees

A node is a text or an element with a tag, perhaps properties, and perhaps children. Absent children
and an empty list of children are told apart; an empty mapping of properties is stored as absent by
everything that builds elements (`Element.withProperties`).
-/

namespace MarkupTree

/-- A node of a markup tree. -/
inductive Node
  | text (value : String)
  | element (tag : String) (properties : Option Properties) (children : Option (List Node))

/-- A tag with what belongs to it. -/
structure Element where
  tag : String
  properties : Option Properties := none
  children : Option (List Node) := none

namespace Element

/-- The node that the element makes. -/
def toNode (e : Element) : Node := .element e.tag e.properties e.children

/-- An element with neither properties nor children. -/
def bare (tag : String) : Element where
  tag := tag

/-- Replaces the properties. An empty mapping is stored as absent. -/
def withProperties (e : Element) (p : Properties) : Element :=
  { e with properties := if p.isEmpty then none else some p }

/-- Replaces the children; an empty list stays present. -/
def withChildren (e : Element) (children : List Node) : Element :=
  { e with children := some children }

end Element

namespace Node

/-- The children in order, none for a text. -/
def childList : Node → List Node
  | .element _ _ (some children) => children
  | _ => []

/-- Whether the node has a mapping with at least one entry. -/
def hasProperties : Node → Bool
  | .element _ (some p) _ => !p.isEmpty
  | _ => false

/-- Equality of what two elements hold as properties. -/
def propertiesBeq : Option Properties → Option Properties → Bool
  | none, none => true
  | some p, some q => Properties.beq p q
  | _, _ => false

mutual

/-- Equality of trees: the order of properties is not looked at, absent and empty differ. -/
def beq : Node → Node → Bool
  | .text s, .text t => s == t
  | .element t p none, .element u q none => t == u && propertiesBeq p q
  | .element t p (some cs), .element u q (some ds) => t == u && propertiesBeq p q && beqAll cs ds
  | _, _ => false

def beqAll : List Node → List Node → Bool
  | [], [] => true
  | c :: cs, d :: ds => c.beq d && beqAll cs ds
  | _, _ => false

end

end Node

end MarkupTree

import MarkupTree.OrderedMap
import MarkupTree.Scalar

/-!
# Properties of an element

A properties mapping takes keys to attribute values or to nested mappings, in the order in which the
keys were first set. Nesting and compound keys only shape attribute names. Two mappings are equal
when they hold equal values at the same keys, whatever the order (`Properties.beq`).
-/

namespace MarkupTree

/-! ## Attribute values -/

/-- One scalar, or a sequence of scalars that is written with blanks between. -/
inductive AttributeValue
  | list (items : List Scalar)
  | scalar (value : Scalar)
  deriving BEq

namespace AttributeValue

/-- The texts of the scalars, in order. -/
def parts : AttributeValue → List String
  | .list items => items.map Scalar.text
  | .scalar s => [s.text]

/-- The text of the value: its parts with one blank between. -/
def text (a : AttributeValue) : String := " ".intercalate a.parts

end AttributeValue

/-! ## Keys -/

/-- A name, or the parts of one. A compound key is another key than the name it makes. -/
inductive PropertyKey
  | name (name : String)
  | compound (parts : List String)
  deriving DecidableEq

namespace PropertyKey

/-- The attribute name that the key stands for; the parts of a compound key are joined by dashes. -/
def flat : PropertyKey → String
  | .name s => s
  | .compound parts => "-".intercalate parts

end PropertyKey

/-! ## Mappings -/

/-- What a key is set to. -/
inductive PropertyValue
  | nested (entries : List (PropertyKey × PropertyValue))
  | attr (value : AttributeValue)

/-- The properties of an element, or of a nested mapping. -/
abbrev Properties := OrderedMap PropertyKey PropertyValue

mutual

/-- Equality of values: equal scalars in equal places, and nested mappings up to order. -/
def PropertyValue.beq : PropertyValue → PropertyValue → Bool
  | .nested p, .nested q => p.length == q.length && Properties.within p q
  | .attr a, .attr b => a == b
  | _, _ => false

/-- Every entry of `p` has an equal value in `q`. -/
def Properties.within : List (PropertyKey × PropertyValue) → Properties → Bool
  | [], _ => true
  | (k, v) :: p, q =>
    (match OrderedMap.find? k q with
      | some w => v.beq w
      | none => false) && Properties.within p q

end

/-- Equality of mappings does not look at the order of entries. -/
def Properties.beq (p q : Properties) : Bool := p.length == q.length && Properties.within p q

end MarkupTree

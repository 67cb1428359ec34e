import MarkupTree.Json.Text
import MarkupTree.Node
import MarkupTree.Render

/-!
# Trees as JSON

The interchange form of a tree: an object that names its type, then the fields of the node. Absent
properties and children are left out. Keys are written as the names they make, so two keys of a
mapping can come to the same member: `Node.serialized` writes both, `Node.toJson` is a map.
-/

namespace MarkupTree

open Json

/-- An integer as a number. -/
def Json.Number.ofInt64 (n : Int64) : Json.Number :=
  if n.toInt < 0 then .negative n else .natural n.toUInt64

/-- A scalar as a value. What is not finite has no number, and becomes `null`. -/
def Scalar.toJson : Scalar → Value
  | .bool b => .bool b
  | .int n => .number (.ofInt64 n)
  | .uint n => .number (.natural n)
  | .float x => if h : (Decimal.Binary64.ofFloat x).isFinite then .number (.float x h) else .null
  | .str s => .string s
  | .symbol s => .string s

/-- A sequence becomes an array, a single scalar stands for itself. -/
def AttributeValue.toJson : AttributeValue → Value
  | .list items => .array (items.map Scalar.toJson)
  | .scalar s => s.toJson

mutual

/-- A nested mapping becomes an object. -/
def PropertyValue.toJson : PropertyValue → Value
  | .nested p => .object (Properties.toMembers p)
  | .attr a => a.toJson

/-- The members for the entries of a mapping. -/
def Properties.toMembers : List (PropertyKey × PropertyValue) → List (String × Value)
  | [] => []
  | (k, v) :: p => (k.flat, v.toJson) :: Properties.toMembers p

end

/-- A mapping as an object. -/
def Properties.toJson (p : Properties) : Value := .object (Properties.toMembers p)

namespace Node

/-- The type of an element. -/
def elementType : String := "ELEMENT"

/-- The type of a text. -/
def textType : String := "TEXT"

/-- The member for properties, if there are any. -/
def propertiesMember : Option Properties → List (String × Value)
  | none => []
  | some p => [("properties", Properties.toJson p)]

mutual

/-- The members of the tree as they are, without regard to repeated keys. -/
def encode : Node → Value
  | .text s => .object [("type", .string textType), ("value", .string s)]
  | .element tag p none =>
    .object (("type", .string elementType) :: ("tag", .string tag) :: propertiesMember p)
  | .element tag p (some children) =>
    .object (("type", .string elementType) :: ("tag", .string tag) ::
      (propertiesMember p ++ [("children", .array (encodeAll children))]))

def encodeAll : List Node → List Value
  | [] => []
  | n :: ns => n.encode :: encodeAll ns

end

/-- The interchange form of a tree. -/
def toJson (n : Node) : Value := n.encode.collapse

/-- The text of a tree, with every entry of its mappings. -/
def serialized (n : Node) : String := n.encode.text

end Node

/-- The name of the one option. -/
def RenderOptions.fieldName : String := "dedupe_attribute_values"

/-- Options as a value. -/
def RenderOptions.toJson (options : RenderOptions) : Value :=
  .object [(fieldName, .bool options.dedupeAttributeValues)]

end MarkupTree

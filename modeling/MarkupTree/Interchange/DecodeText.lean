import MarkupTree.Interchange.Decode
import MarkupTree.Json.Skip
import MarkupTree.Json.Typed

/-!
# Decoding texts

The exact reading of nodes, elements, properties and options straight from a text. Elements, options
and the type of a node are checked while the text is read; everything inside a node, and everything
in a mapping, is read into a value first, and then decoded.
-/

namespace MarkupTree

open Json

/-! ## Properties -/

/-- Reads one entry of a mapping, and sets it. -/
def Properties.entryText (turns depth : Nat) (p : Properties) (k : String) : Reader Properties :=
  fun s => do
    let s ← colon s
    let (v, s) ← value turns depth s
    match PropertyValue.ofJson? v with
    | some w => return (OrderedMap.insert (.name k) w p, s)
    | none => throw (.mismatch PropertyValue.noVariant s false)

/-- Reads a mapping. -/
def Properties.reader (turns depth : Nat) : Reader Properties :=
  container "a map" depth none (some fun depth => members (entryText turns depth) turns true [])

/-! ## Nodes -/

namespace Node

/-- The type of a node as far as it is met, and its other members, the last one first. -/
structure Parts where
  type : Option NodeType := none
  members : List (String × Value) := []

/-- Reads one member of a node. The type is looked at at once. -/
def partText (turns depth : Nat) (parts : Parts) (k : String) : Reader Parts := fun s =>
  if k = "type" then do
    let (_, s) ← place (once k parts.type) s false
    let (t, s) ← stringAs NodeType.wanted NodeType.ofName (← colon s)
    return ({ parts with type := some t }, s)
  else do
    let (ms, s) ← addMember (value turns depth) parts.members k s
    return ({ parts with members := ms }, s)

/-- Reads what is needed of an object for a node. -/
def objectText (turns depth : Nat) : Reader (Except Mismatch Node) := fun s => do
  let (parts, s) ← members (partText turns depth) turns true {} s
  match parts.type with
  | some t => return (ofMembers t parts.members.reverse, s)
  | none => throw (.mismatch (.missingField "type") s true)

/-- Reads what is needed of an array for a node. -/
def arrayText (turns depth : Nat) : Reader (Except Mismatch Node) := fun s => do
  let (more, s) ← nextElement true s
  if more then
    let (t, s) ← stringAs NodeType.wanted NodeType.ofName s
    let (items, s) ← elements (value turns depth) turns false s
    return (ofItems t items, s)
  else throw (.mismatch (.missingField "type") s false)

/-- Reads a node. Its type is checked while the text is read, all else when the node is complete. -/
def reader (turns depth : Nat) : Reader Node := fun s => do
  let (r, s) ← container wanted depth (some (arrayText turns)) (some (objectText turns)) s
  place r s false

/-- Reads the children of an element. -/
def childrenReader (turns depth : Nat) : Reader (List Node) :=
  container wantedChildren depth (some fun depth => elements (reader turns depth) turns true) none

end Node

/-! ## Elements -/

namespace Element

/-- Reads one member of an element. -/
def fieldText (turns depth : Nat) (fields : ElementFields) (k : String) : Reader ElementFields :=
  fun s =>
    if k = "tag" then do
      let (_, s) ← place (once k fields.tag) s false
      let (tag, s) ← stringText (← colon s)
      return ({ fields with tag := some tag }, s)
    else if k = "properties" then do
      let (_, s) ← place (once k fields.properties) s false
      let (p, s) ← nullable (Properties.reader turns depth) (← colon s)
      return ({ fields with properties := some p }, s)
    else if k = "children" then do
      let (_, s) ← place (once k fields.children) s false
      let (c, s) ← nullable (Node.childrenReader turns depth) (← colon s)
      return ({ fields with children := some c }, s)
    else do return (fields, ← skipValue turns (← colon s))

/-- Reads the members of an element. -/
def objectText (turns depth : Nat) : Reader Element := fun s => do
  let (fields, s) ← members (fieldText turns depth) turns true {} s
  place fields.toElement s true

/-- Reads the fields of an element in order. -/
def arrayText (turns depth : Nat) : Reader Element := fun s => do
  let (tag, s) ← nextField stringText true s
  match tag with
  | none => throw (.mismatch tooShort s false)
  | some tag =>
    let (p, s) ← nextField (nullable (Properties.reader turns depth)) false s
    let (c, s) ← nextField (nullable (Node.childrenReader turns depth)) false s
    return (⟨tag, p.getD none, c.getD none⟩, ← closeArray s)

/-- Reads an element. -/
def reader (turns depth : Nat) : Reader Element :=
  container wanted depth (some (arrayText turns)) (some (objectText turns))

end Element

/-! ## Options -/

namespace RenderOptions

/-- Reads one member of the options. -/
def fieldText (turns : Nat) (seen : Option Bool) (k : String) : Reader (Option Bool) := fun s =>
  if k = fieldName then do
    let (_, s) ← place (once k seen) s false
    let (b, s) ← boolText (← colon s)
    return (some b, s)
  else do return (seen, ← skipValue turns (← colon s))

/-- The options with what was read. -/
def ofField (b : Option Bool) : RenderOptions := ⟨b.getD false⟩

/-- Reads options. What is not given is as it is by default. -/
def reader (turns depth : Nat) : Reader RenderOptions :=
  container "struct RenderOptions" depth
    (some fun _ s => do
      let (b, s) ← nextField boolText true s
      return (ofField b, ← closeArray s))
    (some fun _ s => do
      let (b, s) ← members (fieldText turns) turns true none s
      return (ofField b, s))

end RenderOptions

/-! ## Whole texts -/

/-- The node that a text stands for, or a message. -/
def Node.decodeText (text : String) : Except String Node := decodeWith Node.reader text

/-- The element that a text stands for, or a message. -/
def Element.decodeText (text : String) : Except String Element := decodeWith Element.reader text

/-- The mapping that a text stands for, or a message. -/
def Properties.decodeText (text : String) : Except String Properties :=
  decodeWith Properties.reader text

/-- The property value that a text stands for, or a message. -/
def PropertyValue.decodeText (text : String) : Except String PropertyValue :=
  decodeWith (valueAs "PropertyValue" PropertyValue.ofJson?) text

/-- The attribute value that a text stands for, or a message. -/
def AttributeValue.decodeText (text : String) : Except String AttributeValue :=
  decodeWith (valueAs "AttributeValue" AttributeValue.ofJson?) text

/-- The scalar that a text stands for, or a message. -/
def Scalar.decodeText (text : String) : Except String Scalar :=
  decodeWith (valueAs "Scalar" Scalar.ofJson?) text

/-- The options that a text stands for, or a message. -/
def RenderOptions.decodeText (text : String) : Except String RenderOptions :=
  decodeWith RenderOptions.reader text

end MarkupTree

import MarkupTree.Interchange.Encode
import MarkupTree.Interchange.Property

/-!
# Decoding trees

The exact reading of the interchange form, for values that are already read: fields have the types
that are written, none is given twice, and those that must be there are. Fields that nobody knows
are passed over. A node may also be a sequence of its type and its fields in their order, and its
type an index. Every node inside a node is decoded in this way.
-/

namespace MarkupTree

open Json

/-- The two types of nodes. -/
inductive NodeType
  | element
  | text
  deriving DecidableEq

namespace NodeType

/-- What a reader of the type asks for. -/
def wanted : String := "variant identifier"

/-- The names that there are. -/
def known : String := "`ELEMENT` or `TEXT`"

/-- The indices that there are. -/
def indices : String := "variant index 0 <= i < 2"

/-- The type of a name. -/
def ofName (name : String) : Except Mismatch NodeType :=
  if name = Node.elementType then .ok .element
  else if name = Node.textType then .ok .text
  else .error (.unknownVariant name known)

/-- The type that a value stands for: its name, or its index. -/
def decode : Value → Except Mismatch NodeType
  | .string name => ofName name
  | .number (.natural n) =>
    if n = 0 then .ok .element else if n = 1 then .ok .text else .error (.invalidIndex n indices)
  | v => .error (.invalidType v.found wanted)

/-- The type among the members, which has to be there once; `seen` is the one met so far. -/
def ofMembers (seen : Option NodeType) : List (String × Value) → Except Mismatch NodeType
  | [] =>
    match seen with
    | some t => .ok t
    | none => .error (.missingField "type")
  | (k, v) :: members =>
    if k = "type" then do
      once k seen
      ofMembers (some (← decode v)) members
    else ofMembers seen members

end NodeType

/-- The string that a value is. -/
def decodeString : Value → Except Mismatch String
  | .string s => .ok s
  | v => .error (.invalidType v.found "a string")

/-- The properties that a value stands for, if it is not `null`. -/
def decodeProperties : Value → Except Mismatch (Option Properties)
  | .null => .ok none
  | v => do return some (← Properties.ofJson v)

/-- The fields of an element as far as they are met. -/
structure ElementFields where
  tag : Option String := none
  properties : Option (Option Properties) := none
  children : Option (Option (List Node)) := none

namespace ElementFields

/-- The element with these fields; only the tag must be among them. -/
def toElement (f : ElementFields) : Except Mismatch Element :=
  match f.tag with
  | some tag => .ok ⟨tag, f.properties.getD none, f.children.getD none⟩
  | none => .error (.missingField "tag")

end ElementFields

namespace Element

/-- What a reader of an element asks for. -/
def wanted : String := "struct Element"

/-- A sequence that ends before the tag. -/
def tooShort : Mismatch := .invalidLength 0 "struct Element with 3 elements"

/-- A sequence of `n` fields, of which three are known. -/
def tooLong (n : Nat) : Mismatch := .invalidLength n "3 elements in sequence"

end Element

namespace Node

/-- What a reader of a node asks for. -/
def wanted : String := "internally tagged enum AstNode"

/-- What a reader of children asks for. -/
def wantedChildren : String := "a sequence"

/-- The text among the members, which has to be there once; `seen` is the one met so far. -/
def decodeTextMembers (seen : Option String) : List (String × Value) → Except Mismatch Node
  | [] =>
    match seen with
    | some s => .ok (.text s)
    | none => .error (.missingField "value")
  | (k, v) :: members =>
    if k = "value" then do
      once k seen
      decodeTextMembers (some (← decodeString v)) members
    else decodeTextMembers seen members

/-- The text node of the fields of a sequence. -/
def decodeTextItems : List Value → Except Mismatch Node
  | [] => .error (.invalidLength 0 "struct variant AstNode::Text with 1 element")
  | v :: more => do
    let s ← decodeString v
    if more.isEmpty then return .text s
    else throw (.invalidLength (more.length + 1) "1 element in sequence")

mutual

/-- The node that a value stands for. -/
def decode : Value → Except Mismatch Node
  | .object members => do
    match ← NodeType.ofMembers none members with
    | .element => return (← (← decodeElementMembers {} members).toElement).toNode
    | .text => decodeTextMembers none members
  | .array [] => .error (.missingField "type")
  | .array (type :: fields) => do
    match ← NodeType.decode type with
    | .element => return (← decodeElementItems fields).toNode
    | .text => decodeTextItems fields
  | v => .error (.invalidType v.found wanted)

/-- Adds the members of an element to the fields. -/
def decodeElementMembers (fields : ElementFields) :
    List (String × Value) → Except Mismatch ElementFields
  | [] => .ok fields
  | (k, v) :: members =>
    if k = "tag" then do
      once k fields.tag
      decodeElementMembers { fields with tag := some (← decodeString v) } members
    else if k = "properties" then do
      once k fields.properties
      decodeElementMembers { fields with properties := some (← decodeProperties v) } members
    else if k = "children" then do
      once k fields.children
      decodeElementMembers { fields with children := some (← decodeChildren v) } members
    else decodeElementMembers fields members

/-- The element of the fields of a sequence. -/
def decodeElementItems : List Value → Except Mismatch Element
  | [] => .error Element.tooShort
  | [t] => do return ⟨← decodeString t, none, none⟩
  | [t, p] => do return ⟨← decodeString t, ← decodeProperties p, none⟩
  | t :: p :: c :: more => do
    let tag ← decodeString t
    let properties ← decodeProperties p
    let children ← decodeChildren c
    if more.isEmpty then return ⟨tag, properties, children⟩
    else throw (Element.tooLong (more.length + 3))

/-- The children that a value stands for, if it is not `null`. -/
def decodeChildren : Value → Except Mismatch (Option (List Node))
  | .null => .ok none
  | .array items => do return some (← decodeAll items)
  | v => .error (.invalidType v.found wantedChildren)

def decodeAll : List Value → Except Mismatch (List Node)
  | [] => .ok []
  | v :: vs => do return (← decode v) :: (← decodeAll vs)

end

/-- The node of a type and the members of an object. -/
def ofMembers (type : NodeType) (members : List (String × Value)) : Except Mismatch Node :=
  match type with
  | .element => do return (← (← decodeElementMembers {} members).toElement).toNode
  | .text => decodeTextMembers none members

/-- The node of a type and the further items of a sequence. -/
def ofItems (type : NodeType) (items : List Value) : Except Mismatch Node :=
  match type with
  | .element => do return (← decodeElementItems items).toNode
  | .text => decodeTextItems items

theorem decode_object (members : List (String × Value)) :
    decode (.object members) =
      NodeType.ofMembers none members >>= fun type => ofMembers type members := by
  rw [decode]
  rfl

theorem decode_array (type : Value) (items : List Value) :
    decode (.array (type :: items)) = NodeType.decode type >>= fun t => ofItems t items := by
  rw [decode]
  rfl

end Node

end MarkupTree

import MarkupTree.Fault
import MarkupTree.Interchange.Encode
import MarkupTree.Interchange.Property
import MarkupTree.Json.Reader

/-!
# Loading trees

Trees come as JSON that others have written. Loading is forgiving where the meaning is clear: a
missing tag is `div`, `null` is as good as absent, a `null` property is an empty text, a text's
value may be any value. It is strict about what a node is: the type is looked at in every node, and
the first node in reading order that is malformed is reported with the path to it (`Malformed`).
-/

namespace MarkupTree

open Json

/-- What is wrong with a node, taken by itself. -/
inductive Defect
  | notObject (found : Kind)
  | noType
  | typeNotString (found : Kind)
  | unknownType (name : String)
  | tagNotString (found : Kind)
  | badProperties (why : Mismatch)
  | childrenNotArray (found : Kind)

/-- A malformed node: the places among the children on the way to it from the root, and what is
wrong with it. -/
structure Malformed where
  path : List Nat
  defect : Defect

namespace Defect

/-- The words for a value of a kind. -/
def jsonKind (k : Kind) : String := "a JSON " ++ k.name

/-- The message about a node without a known type. -/
def typeMessage (found : String) : String :=
  "root type must be ELEMENT or TEXT, found " ++ found

/-- How the defect is put. -/
def message : Defect → String
  | .notObject k => typeMessage (jsonKind k)
  | .noType => typeMessage "no `type` field"
  | .typeNotString k => typeMessage (jsonKind k)
  | .unknownType name => typeMessage ("`" ++ name ++ "`")
  | .tagNotString k => "element tag must be a string, found " ++ jsonKind k
  | .badProperties why => "invalid properties: " ++ why.message
  | .childrenNotArray k => "children must be an array, found " ++ jsonKind k

/-- What to do about it. -/
def help? : Defect → Option String
  | .notObject _ | .noType | .typeNotString _ | .unknownType _ =>
    some "every node needs `\"type\": \"ELEMENT\"` or `\"type\": \"TEXT\"`"
  | .badProperties _ =>
    some "property values are strings, numbers, booleans, arrays of those, or nested objects"
  | .tagNotString _ | .childrenNotArray _ => none

/-- What lies behind it. -/
def cause? : Defect → Option String
  | .badProperties why => some why.message
  | _ => none

end Defect

namespace Malformed

/-- The path in words, from the root on. -/
def pathText (path : List Nat) : String :=
  path.foldl (fun text i => text ++ ".children[" ++ toString i ++ "]") "root"

/-- The defect of the node itself. -/
def here (d : Defect) : Malformed := ⟨[], d⟩

/-- Seen from the parent of which the node is child `i`. -/
def under (i : Nat) (m : Malformed) : Malformed := ⟨i :: m.path, m.defect⟩

/-- The fault of a tree that holds the node. -/
def toFault (m : Malformed) : Fault where
  kind := .render
  message := pathText m.path ++ ": " ++ m.defect.message
  help := m.defect.help?
  cause := m.defect.cause?

end Malformed

/-! ## From values -/

mutual

/-- The value with an empty text in place of every `null` in it. -/
def Json.Value.blankNulls : Value → Value
  | .null => .string ""
  | .array items => .array (Json.Value.blankNullsAll items)
  | .object members => .object (Json.Value.blankNullMembers members)
  | .bool b => .bool b
  | .number n => .number n
  | .string s => .string s

def Json.Value.blankNullsAll : List Value → List Value
  | [] => []
  | v :: vs => v.blankNulls :: Json.Value.blankNullsAll vs

def Json.Value.blankNullMembers : List (String × Value) → List (String × Value)
  | [] => []
  | (k, v) :: ms => (k, v.blankNulls) :: Json.Value.blankNullMembers ms

end

namespace Node

/-- The tag of an element that has none. -/
def defaultTag : String := "div"

/-- The text that the value of a text node stands for. -/
def loadText : Option Value → String
  | none => ""
  | some .null => ""
  | some (.string s) => s
  | some v => v.text

/-- The tag that a member stands for. -/
def loadTag : Option Value → Except Defect String
  | none => .ok defaultTag
  | some .null => .ok defaultTag
  | some (.string s) => .ok s
  | some v => .error (.tagNotString v.kind)

/-- The properties that a member stands for; none where there are no entries. -/
def loadProperties : Option Value → Except Defect (Option Properties)
  | none => .ok none
  | some .null => .ok none
  | some v =>
    match Properties.ofJson v.blankNulls with
    | .ok p => .ok (if p.isEmpty then none else some p)
    | .error why => .error (.badProperties why)

mutual

/-- The tree that a value stands for. Objects are maps: of equal keys the first is looked at. -/
def ofJson : Value → Except Malformed Node
  | .object members =>
    match OrderedMap.find? "type" members with
    | none => .error (.here .noType)
    | some (.string type) =>
      if type = elementType then do
        let tag ← (loadTag (OrderedMap.find? "tag" members)).mapError .here
        let properties ←
          (loadProperties (OrderedMap.find? "properties" members)).mapError .here
        let children ← childrenOfMembers members
        return .element tag properties children
      else if type = textType then .ok (.text (loadText (OrderedMap.find? "value" members)))
      else .error (.here (.unknownType type))
    | some v => .error (.here (.typeNotString v.kind))
  | v => .error (.here (.notObject v.kind))

/-- The children that the member for them stands for. -/
def childrenOfMembers : List (String × Value) → Except Malformed (Option (List Node))
  | [] => .ok none
  | (k, v) :: members => if k = "children" then childrenOfJson v else childrenOfMembers members

/-- The children that a value stands for. -/
def childrenOfJson : Value → Except Malformed (Option (List Node))
  | .null => .ok none
  | .array items => do return some (← ofJsonFrom 0 items)
  | v => .error (.here (.childrenNotArray v.kind))

/-- The nodes for items of which the first is child `i`. -/
def ofJsonFrom (i : Nat) : List Value → Except Malformed (List Node)
  | [] => .ok []
  | v :: vs =>
    match ofJson v with
    | .error m => .error (m.under i)
    | .ok n => do return n :: (← ofJsonFrom (i + 1) vs)

end

/-- The tree that a value stands for. -/
def load (v : Value) : Except Fault Node :=
  match ofJson v.collapse with
  | .ok n => .ok n
  | .error m => .error m.toFault

/-! ## From texts -/

/-- The name under which a text is quoted. -/
def sourceName : String := "ast.json"

/-- The fault of a text that is not JSON, with the byte at fault. -/
def parseFault (text : String) (h : Halt) : Fault :=
  let message := h.message text.toList
  let start := (h.position text.toList).offset text.toList
  { kind := .parse
    message := "invalid AST JSON: " ++ message
    source := some ⟨sourceName, text, some ⟨start, start⟩⟩
    cause := some message }

/-- The tree that a text stands for. -/
def ofText (text : String) : Except Fault Node :=
  match Value.read text with
  | .error h => .error (parseFault text h)
  | .ok v =>
    match load v with
    | .ok n => .ok n
    | .error f => .error (f.withSource sourceName text none)

end Node

/-- The written form of the tree that a text stands for. -/
def renderJson (text : String) : Except Fault String := do
  let n ← Node.ofText text
  return n.render

end MarkupTree

import MarkupTree.Fault
import MarkupTree.Node

/-!
# Defining elements by the shape of arguments

A tag is given at most two arguments, and their shapes decide what is built:

* nothing makes a bare element, whatever the second argument;
* properties make an element with them; a second argument adds children, or one text child;
* children, or a text that becomes the only child, stand alone.

All else is refused with the argument at fault (`Misuse`).
-/

namespace MarkupTree

/-- An argument of a tag. Those after `text` have no accepted shape; they are told apart for the
sake of the message. -/
inductive Argument
  | properties (p : Properties)
  | children (nodes : List Node)
  | text (value : String)
  | integer (value : Int)
  | number (value : Float)
  | bool (value : Bool)
  | symbol (name : String)
  | node (value : Node)

namespace Argument

/-- The name of the shape in messages. -/
def typeName : Argument → String
  | .properties _ => "properties mapping"
  | .children _ => "children sequence"
  | .text _ => "text string"
  | .integer _ | .number _ => "Number"
  | .bool _ => "Bool"
  | .symbol _ => "Symbol"
  | .node _ => "single node"

/-- A scalar as an argument. -/
def ofScalar : Scalar → Argument
  | .bool b => .bool b
  | .int n => .integer n.toInt
  | .uint n => .integer n.toNat
  | .float x => .number x
  | .str s => .text s
  | .symbol s => .symbol s

/-- What to do about a first argument of a wrong shape. -/
def help : Argument → String
  | .integer n => "pass the number as text: \"" ++ toString n ++ "\""
  | .number x => "pass the number as text: \"" ++ Scalar.floatText x ++ "\""
  | .bool b => "pass the boolean as text: \"" ++ toString b ++ "\""
  | .symbol s => "symbols are attribute values; pass \"" ++ s ++ "\" as text"
  | .node _ => "wrap a single child node in a Vec"
  | .properties _ | .children _ | .text _ => "expected properties, children, or text"

end Argument

/-- Why the arguments of a tag are refused. -/
inductive Misuse
  /-- The first argument has no accepted shape. -/
  | first (found : Argument)
  /-- The second argument after properties is neither children nor a text. -/
  | afterProperties (found : Argument)
  /-- There is a second argument after children or a text. -/
  | afterContent (one other : Argument)

namespace Misuse

/-- The message about the arguments of `tag`. -/
def message (tag : String) : Misuse → String
  | .first found =>
    "first argument of `" ++ tag ++ "` must be a properties mapping, a children sequence, " ++
      "a text string, or absent, found " ++ found.typeName
  | .afterProperties found =>
    "second argument of `" ++ tag ++ "` must be a children sequence or a text string " ++
      "when the first is a properties mapping, found " ++ found.typeName
  | .afterContent one other =>
    "second argument of `" ++ tag ++ "` is only accepted when the first is a properties " ++
      "mapping; first is a " ++ one.typeName ++ ", second is a " ++ other.typeName

/-- What to do about it. -/
def help : Misuse → String
  | .first found => found.help
  | .afterProperties _ => "wrap child nodes in a Vec, or pass a string for a single text child"
  | .afterContent _ _ => "put properties first: (props, children) or (props, text)"

/-- The fault of a tag whose arguments are refused. -/
def toFault (tag : String) (m : Misuse) : Fault where
  kind := .definition
  message := m.message tag
  help := some m.help

end Misuse

namespace Element

/-- The element that the arguments describe. -/
def ofArguments (tag : String) : Option Argument → Option Argument → Except Misuse Element
  | none, _ => .ok (bare tag)
  | some (.properties p), none => .ok ((bare tag).withProperties p)
  | some (.properties p), some (.children nodes) =>
    .ok (((bare tag).withProperties p).withChildren nodes)
  | some (.properties p), some (.text s) =>
    .ok (((bare tag).withProperties p).withChildren [.text s])
  | some (.properties _), some other => .error (.afterProperties other)
  | some (.children nodes), none => .ok ((bare tag).withChildren nodes)
  | some (.text s), none => .ok ((bare tag).withChildren [.text s])
  | some (.children nodes), some other => .error (.afterContent (.children nodes) other)
  | some (.text s), some other => .error (.afterContent (.text s) other)
  | some other, _ => .error (.first other)

end Element

namespace Node

/-- The node that a tag and its arguments define. -/
def define (tag : String) (first second : Option Argument) : Except Fault Node :=
  match Element.ofArguments tag first second with
  | .ok e => .ok e.toNode
  | .error m => .error (m.toFault tag)

/-- The tags that have a call of their own. -/
def commonTags : List String := [
  "a", "abbr", "article", "aside", "b", "blockquote", "body", "br", "button", "code", "dd", "div",
  "dl", "dt", "em", "fieldset", "footer", "form", "h1", "h2", "h3", "h4", "h5", "h6", "head",
  "header", "hr", "html", "i", "img", "input", "label", "legend", "li", "link", "main", "meta",
  "nav", "ol", "option", "p", "pre", "script", "section", "select", "small", "span", "strong",
  "style", "table", "tbody", "td", "textarea", "tfoot", "th", "thead", "title", "tr", "ul"]

/-- The call of its own that a tag has, if it is a common one: it defines the same as the tag. -/
def call? (tag : String) (first second : Option Argument) : Option (Except Fault Node) :=
  if tag ∈ commonTags then some (define tag first second) else none

end Node

end MarkupTree

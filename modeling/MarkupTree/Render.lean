import MarkupTree.Attribute
import MarkupTree.Node
import MarkupTree.Text.Lowercase

/-!
# Rendering

A tree is written depth first: texts as they stand, elements as their tag in lower case with the
attributes of their properties, their children, and a closing tag. Nothing is escaped, and every
element is closed. The writer only adds to what is there already, so it is given the text so far.
-/

namespace MarkupTree

/-- What a caller may choose about the written form. -/
structure RenderOptions where
  /-- Write each text of a sequence value only where it comes first. -/
  dedupeAttributeValues : Bool := false
  deriving BEq, DecidableEq

namespace RenderOptions

/-- The written form of one attribute value. -/
def formatValue (options : RenderOptions) (a : AttributeValue) : String :=
  " ".intercalate (if options.dedupeAttributeValues then a.parts.eraseDups else a.parts)

/-- The attributes of a mapping as `name="value"`, with one blank between. -/
def attributesText (options : RenderOptions) (p : Properties) : String :=
  " ".intercalate (p.flatten.map fun e => e.1 ++ "=\"" ++ options.formatValue e.2 ++ "\"")

/-- The opening tag. A mapping with entries is set off by a blank. -/
def openTag (options : RenderOptions) (tag : String) (properties : Option Properties) : String :=
  let attributes :=
    match properties with
    | some p => if p.isEmpty then "" else " " ++ options.attributesText p
    | none => ""
  "<" ++ Text.lowercase tag ++ attributes ++ ">"

/-- The closing tag. -/
def closeTag (tag : String) : String := "</" ++ Text.lowercase tag ++ ">"

end RenderOptions

namespace Node

open RenderOptions

mutual

/-- Adds the written form of a node to `out`. -/
def renderOnto (options : RenderOptions) (out : String) : Node → String
  | .text s => out ++ s
  | .element tag p none => out ++ openTag options tag p ++ closeTag tag
  | .element tag p (some children) =>
    renderAllOnto options (out ++ openTag options tag p) children ++ closeTag tag

def renderAllOnto (options : RenderOptions) (out : String) : List Node → String
  | [] => out
  | n :: ns => renderAllOnto options (n.renderOnto options out) ns

end

/-- The written form of a tree. -/
def render (n : Node) (options : RenderOptions := {}) : String := n.renderOnto options ""

end Node

/-! ## Defined trees -/

section Definition

variable {ε : Type} (definition : Unit → Except ε Node)

/-- The written form of the tree that a definition gives. -/
def renderDefined : Except ε String := (definition ()).map fun n => n.render

/-- The written form of a tree that is given. The definition is asked for one only if there is none.
-/
def renderOrDefine : Option Node → Except ε String
  | some n => .ok n.render
  | none => renderDefined definition

end Definition

end MarkupTree

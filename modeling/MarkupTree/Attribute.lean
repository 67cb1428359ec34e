import MarkupTree.Property

/-!
# Attributes

The attributes that a properties mapping stands for. Nested keys are joined by dashes; where two
entries come to the same name, the later value is written at the place of the earlier one.
-/

namespace MarkupTree

/-- Names with their values, in the order of writing. -/
abbrev Attributes := OrderedMap String AttributeValue

mutual

/-- Sets the attributes of one entry: its value under its name, or those of the nested mapping, each
under the name of the entry, a dash, and its own. -/
def PropertyValue.setAttributes (out : Attributes) (name : String) : PropertyValue → Attributes
  | .attr a => OrderedMap.insert name a out
  | .nested p =>
    (Properties.flattenInto [] p).foldl
      (fun out e => OrderedMap.insert (name ++ "-" ++ e.1) e.2 out) out

/-- Sets the attributes of the entries in order. -/
def Properties.flattenInto (out : Attributes) : List (PropertyKey × PropertyValue) → Attributes
  | [] => out
  | (k, v) :: p => Properties.flattenInto (v.setAttributes out k.flat) p

end

/-- The attributes of a mapping. -/
def Properties.flatten (p : Properties) : Attributes := Properties.flattenInto [] p

end MarkupTree

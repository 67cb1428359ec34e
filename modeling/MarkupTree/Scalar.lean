import MarkupTree.Decimal.Layout

/-!
# Scalars

The atoms that attributes are made of. Integers keep cases of their own, so that they are written
exactly; `Scalar.text` is the form in which a scalar stands in an attribute.
-/

namespace MarkupTree

/-- An atom of an attribute value. A symbol is written as its bare name, like text. -/
inductive Scalar
  | bool (value : Bool)
  | int (value : Int64)
  | uint (value : UInt64)
  | float (value : Float)
  | str (value : String)
  | symbol (name : String)
  deriving BEq

namespace Scalar

/-- A natural number of sixty-four bits: signed where it fits, unsigned above. -/
def ofUInt64 (n : UInt64) : Scalar :=
  if n.toNat < 0x8000000000000000 then .int n.toInt64 else .uint n

/-- The name of the scalar's type in messages. -/
def typeName : Scalar → String
  | .bool _ => "Bool"
  | .int _ | .uint _ | .float _ => "Number"
  | .str _ => "String"
  | .symbol _ => "Symbol"

/-- Fractions in attributes have a plain point whatever their size, and a tie goes away from zero.
-/
def fractionLayout : Decimal.Layout where
  tie := .away
  isPlain := fun _ => true
  wholeMark := []

/-- A double in an attribute. A whole number is written as an integer as long as all the integers up
to it are doubles themselves, that is up to `2 ^ 53`; so a negative zero loses its sign. -/
def floatText (x : Float) : String :=
  match Decimal.Binary64.ofFloat x with
  | .nan => "NaN"
  | .infinity negative => if negative then "-inf" else "inf"
  | .finite negative m q =>
    let plain := fractionLayout.text negative m q
    match (Decimal.Binary64.finite negative m q).integer? with
    | some n => if n.natAbs ≤ 2 * Decimal.Binary64.hiddenBit then toString n else plain
    | none => plain

/-- The text of a scalar in an attribute. -/
def text : Scalar → String
  | .bool b => if b then "true" else "false"
  | .int n => toString n.toInt
  | .uint n => toString n.toNat
  | .float x => floatText x
  | .str s => s
  | .symbol s => s

end Scalar

end MarkupTree

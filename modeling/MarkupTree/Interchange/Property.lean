import MarkupTree.Json.Mismatch
import MarkupTree.Property

/-!
# Properties from JSON

A value is tried as the forms that it may have: an object is a nested mapping, an array a sequence
of scalars, and all else but `null` a scalar (`Scalar.ofJson?_eq`). Keys become names; of members
with the same key the last one counts, at the place of the first, and none of them may be refused.
-/

namespace MarkupTree

open Json

/-! ## Scalars -/

namespace Scalar

/-- A truth value. -/
def bool? : Value → Option Scalar
  | .bool b => some (.bool b)
  | _ => none

/-- An integer that fits a signed one. -/
def int? : Value → Option Scalar
  | .number (.natural n) => if n.toNat < 0x8000000000000000 then some (.int n.toInt64) else none
  | .number (.negative n) => some (.int n)
  | _ => none

/-- A natural number. -/
def uint? : Value → Option Scalar
  | .number (.natural n) => some (.uint n)
  | _ => none

/-- A number of any kind; an integer as the double next to it. -/
def float? : Value → Option Scalar
  | .number (.natural n) => some (.float n.toFloat)
  | .number (.negative n) => some (.float (-(-n).toUInt64.toFloat))
  | .number (.float x _) => some (.float x)
  | _ => none

/-- A text. -/
def str? : Value → Option Scalar
  | .string s => some (.str s)
  | _ => none

/-- A text as a bare name. -/
def symbol? : Value → Option Scalar
  | .string s => some (.symbol s)
  | _ => none

/-- The forms of a scalar, in the order in which a value is tried as them. -/
def forms : List (Value → Option Scalar) := [bool?, int?, uint?, float?, str?, symbol?]

/-- The scalar that a value stands for: the first of its forms that the value has. -/
def ofJson? (v : Value) : Option Scalar := forms.findSome? (· v)

/-- So an integer is never read as a double, and a text never as a symbol. -/
theorem ofJson?_eq (v : Value) : ofJson? v =
    match v with
    | .bool b => some (.bool b)
    | .number (.natural n) => some (ofUInt64 n)
    | .number (.negative n) => some (.int n)
    | .number (.float x _) => some (.float x)
    | .string s => some (.str s)
    | .null | .array _ | .object _ => none := by
  cases v with
  | number n =>
    cases n with
    | natural n =>
      -- Signed where it fits, else the next form takes it.
      unfold ofUInt64
      by_cases h : n.toNat < 0x8000000000000000 <;>
        simp [ofJson?, forms, List.findSome?_cons, bool?, int?, uint?, h]
    | negative | float => rfl
  | null | bool | string | array | object => rfl

end Scalar

/-! ## Attribute values and mappings -/

/-- The attribute value that a value stands for. -/
def AttributeValue.ofJson? : Value → Option AttributeValue
  | .array items => (items.mapM Scalar.ofJson?).map .list
  | v => (Scalar.ofJson? v).map .scalar

mutual

/-- The property value that a value stands for. -/
def PropertyValue.ofJson? : Value → Option PropertyValue
  | .object members => (Properties.ofMembers? [] members).map .nested
  | .array items => (AttributeValue.ofJson? (.array items)).map .attr
  | .null => none
  | .bool b => (AttributeValue.ofJson? (.bool b)).map .attr
  | .number n => (AttributeValue.ofJson? (.number n)).map .attr
  | .string s => (AttributeValue.ofJson? (.string s)).map .attr

/-- Sets the members in order in the mapping `out`. -/
def Properties.ofMembers? (out : Properties) : List (String × Value) → Option Properties
  | [] => some out
  | (k, v) :: members =>
    match PropertyValue.ofJson? v with
    | some w => Properties.ofMembers? (OrderedMap.insert (.name k) w out) members
    | none => none

end

/-- The refusal of a value that has none of the forms of a property value. -/
def PropertyValue.noVariant : Mismatch := .noVariant "PropertyValue"

/-- The mapping that a value stands for. -/
def Properties.ofJson : Value → Except Mismatch Properties
  | .object members =>
    match Properties.ofMembers? [] members with
    | some p => .ok p
    | none => .error PropertyValue.noVariant
  | v => .error (.invalidType v.found "a map")

end MarkupTree

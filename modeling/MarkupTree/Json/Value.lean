import MarkupTree.OrderedMap
import MarkupTree.Decimal.Layout

/-!
# JSON values

Values as a text gives them: the members of an object in order, a repeated key as often as it was
written. `Value.collapse` makes maps of the objects, in which a repeated key has its last value at
its first place.
-/

namespace MarkupTree.Json

/-- A number: an integer of sixty-four bits where it is written as one and fits, else a double. No
number is infinite, or the outcome of a failed computation. -/
inductive Number
  | natural (n : UInt64)
  | negative (n : Int64)
  | float (x : Float) (finite : (Decimal.Binary64.ofFloat x).isFinite)

/-- The number that a double is, if it is one. -/
def Number.ofFloat? (x : Float) : Option Number :=
  if h : (Decimal.Binary64.ofFloat x).isFinite then some (.float x h) else none

/-- A JSON value. -/
inductive Value
  | null
  | bool (b : Bool)
  | number (n : Number)
  | string (s : String)
  | array (items : List Value)
  | object (members : List (String × Value))

/-- The six kinds of values. -/
inductive Kind
  | null
  | bool
  | number
  | string
  | array
  | object
  deriving DecidableEq

/-- The name of a kind in messages. -/
def Kind.name : Kind → String
  | .null => "null"
  | .bool => "bool"
  | .number => "number"
  | .string => "string"
  | .array => "array"
  | .object => "object"

namespace Value

/-- The kind of a value. -/
def kind : Value → Kind
  | .null => .null
  | .bool _ => .bool
  | .number _ => .number
  | .string _ => .string
  | .array _ => .array
  | .object _ => .object

mutual

/-- The value with every object made a map. -/
def collapse : Value → Value
  | .array items => .array (collapseAll items)
  | .object members => .object (collapseMembers [] members)
  | .null => .null
  | .bool b => .bool b
  | .number n => .number n
  | .string s => .string s

def collapseAll : List Value → List Value
  | [] => []
  | v :: vs => v.collapse :: collapseAll vs

/-- Sets the members in order in the map `out`. -/
def collapseMembers (out : OrderedMap String Value) :
    List (String × Value) → OrderedMap String Value
  | [] => out
  | (k, v) :: members => collapseMembers (OrderedMap.insert k v.collapse out) members

end

end Value

end MarkupTree.Json

import MarkupTree.Json.Text
import MarkupTree.Text.Quoted

/-!
# Values of a wrong shape

Why a JSON value does not stand for what a reader wants of it, and how that is said.
-/

namespace MarkupTree.Json

/-- What was found: the whole of a plain value, of a container only that it is one. -/
inductive Found
  | null
  | bool (b : Bool)
  | number (n : Number)
  | string (s : String)
  | sequence
  | map

/-- What a value is found to be. -/
def Value.found : Value → Found
  | .null => .null
  | .bool b => .bool b
  | .number n => .number n
  | .string s => .string s
  | .array _ => .sequence
  | .object _ => .map

/-- How the finding is put. -/
def Found.text : Found → String
  | .null => "null"
  | .bool b => "boolean `" ++ toString b ++ "`"
  | .number (.float x h) => "floating point `" ++ (Number.float x h).text ++ "`"
  | .number n => "integer `" ++ n.text ++ "`"
  | .string s => "string " ++ Text.quoted s
  | .sequence => "sequence"
  | .map => "map"

/-- Why a value is refused. -/
inductive Mismatch
  /-- A value of another type than `wanted`. -/
  | invalidType (found : Found) (wanted : String)
  /-- A number that is none of the indices that are `wanted`. -/
  | invalidIndex (index : UInt64) (wanted : String)
  /-- A name that is none of those that are `wanted`. -/
  | unknownVariant (name : String) (wanted : String)
  /-- A sequence with more or fewer items than `wanted`. -/
  | invalidLength (length : Nat) (wanted : String)
  | missingField (name : String)
  | duplicateField (name : String)
  /-- None of the forms of `type` fits. -/
  | noVariant (type : String)

/-- How the refusal is put. -/
def Mismatch.message : Mismatch → String
  | .invalidType found wanted => "invalid type: " ++ found.text ++ ", expected " ++ wanted
  | .invalidIndex n wanted =>
    "invalid value: integer `" ++ toString n.toNat ++ "`, expected " ++ wanted
  | .unknownVariant name wanted => "unknown variant `" ++ name ++ "`, expected " ++ wanted
  | .invalidLength n wanted => "invalid length " ++ toString n ++ ", expected " ++ wanted
  | .missingField name => "missing field `" ++ name ++ "`"
  | .duplicateField name => "duplicate field `" ++ name ++ "`"
  | .noVariant type => "data did not match any variant of untagged enum " ++ type

/-- Refuses a field that was met before. -/
def once {α : Type} (name : String) (seen : Option α) : Except Mismatch Unit :=
  if seen.isSome then .error (.duplicateField name) else .ok ()

end MarkupTree.Json

import MarkupTree.Json.Value

/-!
# The text of a JSON value

Values are written without blanks. Everything is written in front of a given rest of the text, so
that what a reader does with a written value and whatever follows can be said at once.
-/

namespace MarkupTree.Json

/-- One character of a string: only quotation marks, backslashes and controls are escaped. -/
def escapedChar (c : Char) : List Char :=
  if c = '"' then ['\\', '"']
  else if c = '\\' then ['\\', '\\']
  else if c = '\x08' then ['\\', 'b']
  else if c = '\x0c' then ['\\', 'f']
  else if c = '\n' then ['\\', 'n']
  else if c = '\r' then ['\\', 'r']
  else if c = '\t' then ['\\', 't']
  else if c.toNat < 32 then
    ['\\', 'u', '0', '0', Nat.digitChar (c.toNat / 16), Nat.digitChar (c.toNat % 16)]
  else [c]

/-- A string between quotation marks, before `rest`. -/
def stringBefore (s : String) (rest : List Char) : List Char :=
  '"' :: s.toList.flatMap escapedChar ++ '"' :: rest

/-- Numbers with a fraction have a plain point from the fifth place after it to the sixteenth before
it, and an exponent beyond; a tie goes to the even digit. -/
def floatLayout : Decimal.Layout where
  tie := .toEven
  isPlain := fun e => -5 ≤ e && e ≤ 15
  wholeMark := ['.', '0']

/-- The text of a number. There is none for what is not finite; `null` stands in its place. -/
def Number.text : Number → String
  | .natural n => toString n.toNat
  | .negative n => toString n.toInt
  | .float x _ =>
    match Decimal.Binary64.ofFloat x with
    | .finite sign m q => floatLayout.text sign m q
    | _ => "null"

namespace Value

mutual

/-- The text of a value, before `rest`. -/
def before (rest : List Char) : Value → List Char
  | .null => "null".toList ++ rest
  | .bool b => (if b then "true" else "false").toList ++ rest
  | .number n => n.text.toList ++ rest
  | .string s => stringBefore s rest
  | .array [] => '[' :: ']' :: rest
  | .array (v :: vs) => '[' :: v.before (itemsBefore (']' :: rest) vs)
  | .object [] => '\x7b' :: '\x7d' :: rest
  | .object ((k, v) :: ms) =>
    '\x7b' :: stringBefore k (':' :: v.before (membersBefore ('\x7d' :: rest) ms))

/-- Further items, each after a comma, before `rest`. -/
def itemsBefore (rest : List Char) : List Value → List Char
  | [] => rest
  | v :: vs => ',' :: v.before (itemsBefore rest vs)

/-- Further members, each after a comma, before `rest`. -/
def membersBefore (rest : List Char) : List (String × Value) → List Char
  | [] => rest
  | (k, v) :: ms => ',' :: stringBefore k (':' :: v.before (membersBefore rest ms))

end

/-- The text of a value. -/
def text (v : Value) : String := String.ofList (v.before [])

end Value

end MarkupTree.Json

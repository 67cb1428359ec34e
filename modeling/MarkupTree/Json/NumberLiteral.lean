import MarkupTree.Json.Halt

/-!
# Reading numbers

The digits of a number are gathered in a word of sixty-four bits. A number without fraction and
exponent that fits is an integer. Every other one is the double next to the word, multiplied or
divided by the double next to a power of ten; so it is rounded twice, and digits that no longer fit
the word only count by their place.
-/

namespace MarkupTree.Json

/-- The value of a decimal digit. -/
def digitValue (c : Char) : Nat := c.toNat - 48

/-- Gathers digits as long as the number stays within `bound`; answers the number, how many digits
it has taken, and the rest, which begins with a digit where the number would have grown too big. -/
def gather (bound : Nat) (n count : Nat) : List Char → Nat × Nat × List Char
  | [] => (n, count, [])
  | c :: s =>
    if c.isDigit ∧ n * 10 + digitValue c ≤ bound then
      gather bound (n * 10 + digitValue c) (count + 1) s
    else (n, count, c :: s)

/-- The greatest number that is gathered from digits. -/
def maxSignificand : Nat := 0xffffffffffffffff

/-- The greatest exponent that may be written. -/
def maxExponent : Nat := 0x7fffffff

/-- Whether a digit comes next. -/
def startsWithDigit : List Char → Bool
  | [] => false
  | c :: _ => c.isDigit

/-- The double next to `10 ^ n`, for `n` up to 308. -/
def powerOfTen (n : Nat) : Float := Float.ofScientific 1 false n

/-- Divides by `10 ^ 308` so many times, or until nothing is left. -/
def shrink : Nat → Float → Float
  | 0, x => x
  | n + 1, x => if x == 0 then x else shrink n (x / powerOfTen 308)

/-- The double for `significand · 10 ^ exponent`; none where it would be infinite. Powers beyond `10
^ 308` are divided by in steps. -/
def floatOf? (significand : Nat) (exponent : Int) : Option Float :=
  let x := significand.toUInt64.toFloat
  if 0 ≤ exponent then
    if exponent ≤ 308 then
      let y := x * powerOfTen exponent.toNat
      if y.isInf then none else some y
    else if x == 0 then some x else none
  else
    let n := (-exponent).toNat
    let steps := (n - 1) / 308
    some (shrink steps x / powerOfTen (n - 308 * steps))

/-- A double with its sign; `rest` is what follows the number. -/
def signedNumber (negative : Bool) (x : Option Float) (rest : List Char) :
    Except Halt (Number × List Char) :=
  match x.bind fun x => Number.ofFloat? (if negative then -x else x) with
  | some n => .ok (n, rest)
  | none => .error (.flaw .numberOutOfRange rest 0)

/-- An integer with what follows it. What is below zero and fits sixty-three bits with a sign is
one, and what is not below zero; all else, and a negative zero, are doubles. -/
def integerNumber (negative : Bool) (n : Nat) (rest : List Char) :
    Except Halt (Number × List Char) :=
  if negative then
    if 0 < n ∧ n ≤ 0x8000000000000000 then .ok (.negative (Int64.ofInt (-n)), rest)
    else signedNumber true (some n.toUInt64.toFloat) rest
  else .ok (.natural n.toUInt64, rest)

/-- Reads the exponent after its letter; `shift` is the exponent due to the place of the point. An
exponent too big to be gathered makes the number infinite or zero. -/
def exponentPart (negative : Bool) (significand : Nat) (shift : Int) (s : List Char) :
    Except Halt (Number × List Char) :=
  let (down, s) :=
    match s with
    | '+' :: s => (false, s)
    | '-' :: s => (true, s)
    | s => (false, s)
  match s with
  | [] => .error (.flaw .endInValue [] 0)
  | c :: s =>
    if !c.isDigit then .error (.here .invalidNumber (c :: s))
    else
      let (e, _, rest) := gather maxExponent 0 0 (c :: s)
      if startsWithDigit rest then
        if significand ≠ 0 ∧ !down then .error (.here .numberOutOfRange rest)
        else signedNumber negative (some 0.0) (rest.dropWhile Char.isDigit)
      else
        signedNumber negative (floatOf? significand (if down then shift - e else shift + e)) rest

/-- Reads what may follow the digits of a number that is a double: an exponent. -/
def afterDigits (negative : Bool) (significand : Nat) (shift : Int) (s : List Char) :
    Except Halt (Number × List Char) :=
  match s with
  | 'e' :: s => exponentPart negative significand shift s
  | 'E' :: s => exponentPart negative significand shift s
  | s => signedNumber negative (floatOf? significand shift) s

/-- Reads the fraction after its point; `shift` is the number of digits before the point that no
longer fitted. -/
def fractionPart (negative : Bool) (significand shift : Nat) (s : List Char) :
    Except Halt (Number × List Char) :=
  let (n, count, rest) := gather maxSignificand significand 0 s
  if startsWithDigit rest then
    afterDigits negative n (shift - count) (rest.dropWhile Char.isDigit)
  else if count = 0 then
    .error (.here (if rest.isEmpty then .endInValue else .invalidNumber) rest)
  else afterDigits negative n (shift - count) rest

/-- Reads what follows the digits before the point. -/
def afterInteger (negative : Bool) (n : Nat) (s : List Char) : Except Halt (Number × List Char) :=
  match s with
  | '.' :: s => fractionPart negative n 0 s
  | 'e' :: s => exponentPart negative n 0 s
  | 'E' :: s => exponentPart negative n 0 s
  | s => integerNumber negative n s

/-- Reads a number after its sign. -/
def numberBody (negative : Bool) (s : List Char) : Except Halt (Number × List Char) :=
  match s with
  | [] => .error (.flaw .endInValue [] 0)
  | '0' :: s =>
    if startsWithDigit s then .error (.here .invalidNumber s) else afterInteger negative 0 s
  | c :: s =>
    if !c.isDigit then .error (.here .invalidNumber (c :: s))
    else
      let (n, _, rest) := gather maxSignificand 0 0 (c :: s)
      let more := rest.takeWhile Char.isDigit
      if more.isEmpty then afterInteger negative n rest
      else
        match rest.dropWhile Char.isDigit with
        | '.' :: s => fractionPart negative n more.length s
        | s => afterDigits negative n more.length s

end MarkupTree.Json

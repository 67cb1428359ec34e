/-!
# Doubles as numbers

A double read off its bits: not a number, an infinity, or a sign with `mantissa · 2 ^ exponent`.
Everything that is decided about a double's text is decided here in exact integers.
-/

namespace MarkupTree.Decimal

/-- The number that a double stands for. -/
inductive Binary64
  | nan
  | infinity (negative : Bool)
  | finite (negative : Bool) (mantissa : Nat) (exponent : Int)
  deriving DecidableEq

namespace Binary64

/-- The weight of the bit that most doubles have in front of the fraction and do not store. All
integers up to twice as much are doubles. -/
def hiddenBit : Nat := 0x10000000000000

/-- Reads the sign bit, the eleven exponent bits and the fifty-two fraction bits. An exponent field
of zero holds the numbers without a hidden bit, the highest one those that are not finite. -/
def ofBits (bits : UInt64) : Binary64 :=
  let negative := bits.toNat.testBit 63
  let field := bits.toNat / hiddenBit % 2048
  let fraction := bits.toNat % hiddenBit
  if field = 2047 then
    if fraction = 0 then .infinity negative else .nan
  else if field = 0 then .finite negative fraction (-1074)
  else .finite negative (hiddenBit + fraction) ((field : Int) - 1075)

/-- The number behind a `Float`. -/
def ofFloat (x : Float) : Binary64 := ofBits x.toBits

/-- Neither an infinity nor a failed computation. -/
def isFinite : Binary64 → Bool
  | .finite .. => true
  | _ => false

/-- The integer that the double is equal to, if there is one. -/
def integer? : Binary64 → Option Int
  | .finite negative mantissa exponent =>
    let sign : Int := if negative then -1 else 1
    if 0 ≤ exponent then some (sign * (mantissa * Nat.pow 2 exponent.toNat : Nat))
    else
      let den := Nat.pow 2 (-exponent).toNat
      if mantissa % den = 0 then some (sign * (mantissa / den : Nat)) else none
  | _ => none

end Binary64

end MarkupTree.Decimal

import MarkupTree.Decimal.Shortest

/-!
# Layouts of a decimal

A layout fixes what is left open once the digits are found: which way a tie goes, which exponents
are written with a plain point, and what marks a whole number. `Layout.text` writes a finite double.
-/

namespace MarkupTree.Decimal

/-- The decisions of one text format. -/
structure Layout where
  /-- The choice between two shortest decimals that are equally near. -/
  tie : Tie
  /-- Whether a number is written with a plain point, by the exponent of its first digit. -/
  isPlain : Int → Bool
  /-- What follows the digits of a whole number in plain form. -/
  wholeMark : List Char

namespace Layout

/-- Digits and point only. -/
def plain (layout : Layout) (d : Digits) : List Char :=
  let ds := Nat.toDigits 10 d.digits
  let point := (ds.length : Int) + d.exponent
  if 0 ≤ d.exponent then ds ++ List.replicate d.exponent.toNat '0' ++ layout.wholeMark
  else if 0 < point then ds.take point.toNat ++ '.' :: ds.drop point.toNat
  else '0' :: '.' :: List.replicate (-point).toNat '0' ++ ds

/-- One digit before the point, and the exponent with its sign. -/
def scientific (d : Digits) : List Char :=
  let ds := Nat.toDigits 10 d.digits
  let e := (ds.length : Int) + d.exponent - 1
  let fraction := if ds.length ≤ 1 then [] else '.' :: ds.drop 1
  ds.take 1 ++ fraction ++ 'e' :: (if e < 0 then '-' else '+') :: Nat.toDigits 10 e.natAbs

/-- The text of the positive double `m · 2 ^ q`, or of zero when `m = 0`. -/
def magnitude (layout : Layout) (m : Nat) (q : Int) : List Char :=
  if m = 0 then '0' :: layout.wholeMark
  else
    let d := shortest layout.tie m q
    if layout.isPlain ((Nat.toDigits 10 d.digits).length + d.exponent - 1) then layout.plain d
    else scientific d

/-- The text of a finite double; a negative zero keeps its sign. -/
def text (layout : Layout) (negative : Bool) (m : Nat) (q : Int) : String :=
  String.ofList (if negative then '-' :: layout.magnitude m q else layout.magnitude m q)

end Layout

end MarkupTree.Decimal

import MarkupTree.Decimal.Binary64

/-!
# Shortest decimals

The shortest decimal that a correctly rounding reader takes back to a given double. The doubles
around `m · 2 ^ q` leave it an interval of reals; the grids of decimals with one, two, … seventeen
digits are tried in turn, and the first grid with a point in the interval gives the answer. Only the
two neighbours of the value on each grid have to be looked at: if any point of a grid lies inside,
so does one of them.
-/

namespace MarkupTree.Decimal

/-- Where to go from a value that lies halfway between two decimals of the same length. -/
inductive Tie
  | toEven
  | away
  deriving DecidableEq

/-- The number `digits · 10 ^ exponent`. -/
structure Digits where
  digits : Nat
  exponent : Int
  deriving DecidableEq

/-- How many digits `n` is written with; none for zero. -/
def digitCount (n : Nat) : Nat := if n = 0 then 0 else (Nat.toDigits 10 n).length

/-- The reals that round to a positive double, over the unit `2 ^ unit`. The lower neighbour of a
power of two is only half as far away as the upper one. -/
structure Interval where
  low : Nat
  value : Nat
  high : Nat
  unit : Int
  closed : Bool

namespace Interval

/-- The interval around `m · 2 ^ q`. Its ends belong to it when `m` is even. -/
def around (m : Nat) (q : Int) : Interval where
  low := 4 * m - if m = Binary64.hiddenBit ∧ -1074 < q then 1 else 2
  value := 4 * m
  high := 4 * m + 2
  unit := q - 2
  closed := m % 2 = 0

/-- The factor that brings a multiple of `2 ^ unit` onto the denominator shared with `10 ^ k`. -/
def scale (I : Interval) (k : Int) : Nat :=
  Nat.pow 2 I.unit.toNat * Nat.pow 10 (-k).toNat

/-- The step `10 ^ k` of a decimal grid on the denominator shared with `2 ^ unit`. -/
def step (I : Interval) (k : Int) : Nat :=
  Nat.pow 10 k.toNat * Nat.pow 2 (-I.unit).toNat

/-- Whether `c · 10 ^ k` lies in the interval. -/
def contains (I : Interval) (c : Nat) (k : Int) : Bool :=
  let x := c * I.step k
  if I.closed then I.low * I.scale k ≤ x && x ≤ I.high * I.scale k
  else I.low * I.scale k < x && x < I.high * I.scale k

/-- The greatest point of the grid `10 ^ k` that is not above the value. -/
def below (I : Interval) (k : Int) : Nat := I.value * I.scale k / I.step k

/-- Of the two neighbours `below` and `below + 1` the nearer one. -/
def nearest (I : Interval) (tie : Tie) (k : Int) : Nat :=
  let c := I.below k
  let twice := 2 * (I.value * I.scale k)
  let middle := (2 * c + 1) * I.step k
  if twice < middle then c
  else if middle < twice then c + 1
  else if tie = .toEven ∧ c % 2 = 0 then c
  else c + 1

/-- The neighbour to be written on the grid `10 ^ k`, if one lies in the interval. -/
def onGrid? (I : Interval) (tie : Tie) (k : Int) : Option Nat :=
  let c := I.below k
  match I.contains c k, I.contains (c + 1) k with
  | true, true => some (I.nearest tie k)
  | true, false => some c
  | false, true => some (c + 1)
  | false, false => none

/-- The place `d` of the value's first digit: `10 ^ (d - 1) ≤ value < 10 ^ d`. -/
def firstPlace (I : Interval) : Int :=
  let num := I.value * I.scale 0
  let den := I.step 0
  if den ≤ num then digitCount (num / den)
  else 1 - (digitCount ((den + num - 1) / num - 1) : Int)

/-- A neighbour that has grown by a digit is one step of the next coarser grid. -/
def settle (c : Nat) (k : Int) : Digits :=
  if c % 10 = 0 then ⟨c / 10, k + 1⟩ else ⟨c, k⟩

/-- The shortest decimal in the interval, the nearest of those. Seventeen digits are always enough,
so the last grid is not tested. -/
def shortest (I : Interval) (tie : Tie) : Digits :=
  let place := I.firstPlace
  let found := (List.range 16).findSome? fun (n : Nat) =>
    let k := place - (n + 1)
    (I.onGrid? tie k).map (settle · k)
  found.getD (settle (I.nearest tie (place - 17)) (place - 17))

end Interval

/-- The shortest decimal for the positive double `m · 2 ^ q`. -/
def shortest (tie : Tie) (m : Nat) (q : Int) : Digits := (Interval.around m q).shortest tie

end MarkupTree.Decimal

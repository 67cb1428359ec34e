import MarkupTree.Decimal.Binary64
import Mathlib.Algebra.Order.Field.Rat
import Mathlib.Tactic.NormNum
import Mathlib.Tactic.Ring

/-!
# Doubles as fractions

What a double is as a fraction: by its bits, the fraction bits with or without a one in front,
scaled by the exponent bits (`valueOfBits`); by its parts, `mantissa · 2 ^ exponent` (`value?`).
Both are the same (`value?_ofBits`). A double is equal to an integer as a fraction just if
`integer?` finds that integer, which does not compute with fractions (`integer?_eq_some_iff`).
-/

namespace MarkupTree.Decimal.Binary64

/-- The sign of a number, as a factor. -/
def signFactor (negative : Bool) : ℤ := if negative then -1 else 1

/-- The number that bits stand for in the format of doubles: a sign bit, eleven exponent bits and
fifty-two fraction bits. -/
def valueOfBits (bits : UInt64) : Option ℚ :=
  let sign := signFactor (bits.toNat.testBit 63)
  let field := bits.toNat / 0x10000000000000 % 0x800
  let fraction : ℚ := (bits.toNat % 0x10000000000000 : Nat) / 0x10000000000000
  if field = 0x7ff then none
  else if field = 0 then some (sign * fraction * 2 ^ (-1022 : ℤ))
  else some (sign * (1 + fraction) * 2 ^ ((field : ℤ) - 1023))

/-- The number that the parts stand for. -/
def value? : Binary64 → Option ℚ
  | .finite negative mantissa exponent => some (signFactor negative * mantissa * 2 ^ exponent)
  | _ => none

/-- The parts that are read off the bits stand for the same number as the bits. -/
theorem value?_ofBits (bits : UInt64) : (ofBits bits).value? = valueOfBits bits := by
  have hscale (e : ℤ) : (2 : ℚ) ^ (e - 52) = 2 ^ e / 0x10000000000000 := by
    rw [zpow_sub₀ (by norm_num)]
    norm_num
  unfold ofBits valueOfBits hiddenBit
  dsimp only
  generalize bits.toNat / 0x10000000000000 % 0x800 = field
  generalize bits.toNat % 0x10000000000000 = fraction
  by_cases htop : field = 2047
  · rw [if_pos htop, if_pos htop]
    split <;> rfl
  rw [if_neg htop, if_neg htop]
  by_cases hzero : field = 0
  · rw [if_pos hzero, if_pos hzero, value?, show (-1074 : ℤ) = -1022 - 52 by norm_num, hscale]
    ring_nf
  · rw [if_neg hzero, if_neg hzero, value?,
      show (field : ℤ) - 1075 = field - 1023 - 52 by ring, hscale]
    push_cast
    ring_nf

/-! ## Whole numbers -/

section Finite

variable {negative : Bool} {m k : ℕ} {z : ℤ}

theorem value?_upwards :
    (finite negative m k).value? = some (z : ℚ) ↔ signFactor negative * (m * 2 ^ k) = z := by
  rw [value?, Option.some_inj, zpow_natCast, mul_assoc]
  norm_cast

theorem value?_downwards :
    (finite negative m (-k)).value? = some (z : ℚ) ↔ signFactor negative * m = z * 2 ^ k := by
  have hk : (2 : ℚ) ^ k ≠ 0 := pow_ne_zero k two_ne_zero
  rw [value?, Option.some_inj, zpow_neg, zpow_natCast, mul_inv_eq_iff_eq_mul₀ hk]
  norm_cast

theorem natAbs_signFactor_mul (z : ℤ) : (signFactor negative * z).natAbs = z.natAbs := by
  cases negative with
  | false => exact congrArg Int.natAbs (Int.one_mul z)
  | true => exact (congrArg Int.natAbs (Int.neg_one_mul z)).trans (Int.natAbs_neg z)

end Finite

/-- **A double is an integer just if `integer?` finds it.** A mantissa scaled downwards is one if
the scale divides it, since the scale has no sign to lose. -/
theorem integer?_eq_some_iff {b : Binary64} {z : ℤ} :
    b.integer? = some z ↔ b.value? = some (z : ℚ) := by
  cases b with
  | nan | infinity => exact ⟨nofun, nofun⟩
  | finite negative m e =>
    have hsign : (if negative = true then (-1 : ℤ) else 1) = signFactor negative := rfl
    rw [integer?, hsign]
    dsimp only
    by_cases he : 0 ≤ e
    · obtain ⟨k, rfl⟩ := Int.eq_ofNat_of_zero_le he
      rw [if_pos he, Int.toNat_natCast, value?_upwards, Option.some_inj]
      push_cast
      rfl
    · obtain ⟨k, rfl⟩ : ∃ k : ℕ, e = -k := ⟨(-e).toNat, by omega⟩
      have hscale : (2 : ℤ) ^ k ≠ 0 := pow_ne_zero k two_ne_zero
      rw [if_neg he, Int.neg_neg, Int.toNat_natCast, value?_downwards, Nat.pow_eq]
      by_cases hm : m % 2 ^ k = 0
      · obtain ⟨n, rfl⟩ := Nat.dvd_of_mod_eq_zero hm
        rw [if_pos hm, Nat.mul_div_cancel_left n (Nat.two_pow_pos k), Option.some_inj]
        push_cast
        rw [mul_comm ((2 : ℤ) ^ k), ← mul_assoc, mul_left_inj' hscale]
      · refine iff_of_false (by rw [if_neg hm]; nofun) fun h => hm ?_
        have habs : m = z.natAbs * 2 ^ k := by
          have := congrArg Int.natAbs h
          rwa [natAbs_signFactor_mul, Int.natAbs_natCast, Int.natAbs_mul, Int.natAbs_pow] at this
        rw [habs, Nat.mul_mod_left]

end MarkupTree.Decimal.Binary64

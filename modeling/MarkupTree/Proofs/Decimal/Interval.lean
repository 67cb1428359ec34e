import MarkupTree.Decimal.Shortest
import MarkupTree.Proofs.Decimal.Exact
import Mathlib.Algebra.Order.Field.Power
import Mathlib.Tactic.Linarith

/-!
# Rounding intervals

`Interval.Mem` says of a fraction that it lies in the interval around a double. The intervals of two
doubles do not overlap: what they have in common could only be an end, and where they meet one of
the mantissas is odd, so that its interval is open (`Interval.lt_of_mem`). So a fraction lies in the
interval of one double only (`Interval.eq_of_mem`), and in the order of fractions intervals are in
the order of doubles (`Interval.exponent_le_of_mem`).
-/

namespace MarkupTree.Decimal

/-- The parts that doubles have: fifty-three bits, the first of which is used if the exponent is not
the least. -/
structure Binary64.Canonical (m : ℕ) (q : ℤ) : Prop where
  lt : m < 2 * hiddenBit
  le : -1074 ≤ q
  hidden : -1074 < q → hiddenBit ≤ m

theorem Binary64.Canonical.exponent_of_zero {q : ℤ} (h : Canonical 0 q) : q = -1074 := by
  by_contra hne
  have := h.hidden (lt_of_le_of_ne h.le (Ne.symm hne))
  exact absurd this (by decide)

namespace Interval

open Binary64

theorem two_zpow_pos (q : ℤ) : (0 : ℚ) < 2 ^ q := zpow_pos two_pos q

theorem ten_zpow_pos (k : ℤ) : (0 : ℚ) < 10 ^ k := zpow_pos (by norm_num) k

/-! ## Fractions in an interval -/

/-- The fraction lies in the interval. -/
def Mem (I : Interval) (v : ℚ) : Prop :=
  if I.closed then (I.low : ℚ) * 2 ^ I.unit ≤ v ∧ v ≤ I.high * 2 ^ I.unit
  else (I.low : ℚ) * 2 ^ I.unit < v ∧ v < I.high * 2 ^ I.unit

theorem Mem.bounds {I : Interval} {v : ℚ} (h : I.Mem v) :
    (I.low : ℚ) * 2 ^ I.unit ≤ v ∧ v ≤ I.high * 2 ^ I.unit := by
  unfold Mem at h
  split at h
  · exact h
  · exact ⟨h.1.le, h.2.le⟩

theorem mem_of_lt {I : Interval} {v : ℚ} (hlow : (I.low : ℚ) * 2 ^ I.unit < v)
    (hhigh : v < I.high * 2 ^ I.unit) : I.Mem v := by
  unfold Mem
  split
  · exact ⟨hlow.le, hhigh.le⟩
  · exact ⟨hlow, hhigh⟩

variable {m m' : ℕ} {q q' : ℤ} {v v' : ℚ}

theorem mem_around_iff : (around m q).Mem v ↔
    if m % 2 = 0 then ((around m q).low : ℚ) * 2 ^ (q - 2) ≤ v ∧ v ≤ (4 * m + 2) * 2 ^ (q - 2)
    else ((around m q).low : ℚ) * 2 ^ (q - 2) < v ∧ v < (4 * m + 2) * 2 ^ (q - 2) := by
  simp [Mem, around]

/-- An odd mantissa has an open interval. -/
theorem Mem.lt_of_odd (h : (around m q).Mem v) (hm : m % 2 = 1) :
    ((around m q).low : ℚ) * 2 ^ (q - 2) < v ∧ v < (4 * m + 2) * 2 ^ (q - 2) := by
  rw [mem_around_iff, if_neg (by omega)] at h
  exact h

/-- The interval in quarters of the last binary place. -/
theorem mem_around_mul {w : ℚ} : (around m q).Mem (w * 2 ^ q) ↔
    if m % 2 = 0 then ((around m q).low : ℚ) ≤ 4 * w ∧ 4 * w ≤ 4 * m + 2
    else ((around m q).low : ℚ) < 4 * w ∧ 4 * w < 4 * m + 2 := by
  have hw : w * 2 ^ q = 4 * w * 2 ^ (q - 2) := by
    rw [zpow_sub₀ two_ne_zero]
    ring
  have hpos := two_zpow_pos (q - 2)
  rw [mem_around_iff, hw]
  simp only [mul_le_mul_iff_left₀ hpos, mul_lt_mul_iff_left₀ hpos]

theorem mem_around_self (m : ℕ) (q : ℤ) : (around m q).Mem (m * 2 ^ q) := by
  rw [mem_around_mul]
  split
  · refine ⟨?_, by linarith⟩
    exact_mod_cast Nat.sub_le (4 * m) _
  · refine ⟨?_, by linarith⟩
    have hlow : (around m q).low < 4 * m := by
      dsimp only [around]
      split <;> omega
    exact_mod_cast hlow

/-! ## Intervals do not overlap -/

/-- The interval of the lesser of two doubles ends where that of the other begins, at the latest; if
they meet, one of the mantissas is odd. -/
theorem high_le_low (h : Canonical m q) (h' : Canonical m' q') {n : ℕ} (hq : q' = q + n)
    (hlt : 0 < n ∨ m < m') : 4 * m + 2 < (around m' q').low * 2 ^ n ∨
      4 * m + 2 = (around m' q').low * 2 ^ n ∧ (m % 2 = 1 ∨ m' % 2 = 1) := by
  obtain ⟨hm, hle, -⟩ := h
  obtain ⟨-, -, hhidden⟩ := h'
  have hlow : (around m' q').low = 4 * m' - 1 ∨
      (around m' q').low = 4 * m' - 2 ∧ (m' = hiddenBit → q' ≤ -1074) := by
    dsimp only [around]
    split
    · exact .inl rfl
    · exact .inr ⟨rfl, by omega⟩
  generalize (around m' q').low = low at hlow ⊢
  unfold hiddenBit at *
  rcases Nat.eq_zero_or_pos n with rfl | hn
  · rw [pow_zero, mul_one]
    omega
  · -- The next exponent at least doubles the unit, and there the mantissa has its first bit.
    have hscale := Nat.mul_le_mul_left low (Nat.le_self_pow hn.ne' 2)
    have := hhidden (by omega)
    omega

theorem lt_of_mem (h : Canonical m q) (h' : Canonical m' q') (hlt : q < q' ∨ q = q' ∧ m < m')
    (hv : (around m q).Mem v) (hv' : (around m' q').Mem v') : v < v' := by
  obtain ⟨n, hn⟩ : ∃ n : ℕ, q' = q + n := ⟨(q' - q).toNat, by omega⟩
  have hpos := two_zpow_pos (q - 2)
  have hscale : ((around m' q').low : ℚ) * 2 ^ (q' - 2) =
      ((around m' q').low * 2 ^ n : ℕ) * 2 ^ (q - 2) := by
    rw [hn, show q + n - 2 = n + (q - 2) by ring, zpow_add₀ two_ne_zero, zpow_natCast]
    push_cast
    ring
  have hhigh : v ≤ (4 * m + 2 : ℕ) * 2 ^ (q - 2) := hv.bounds.2
  have hlow : ((around m' q').low : ℚ) * 2 ^ (q' - 2) ≤ v' := hv'.bounds.1
  rcases high_le_low h h' hn (by omega) with hends | ⟨hends, hodd⟩
  · calc
      v ≤ (4 * m + 2 : ℕ) * 2 ^ (q - 2) := hhigh
      _ < ((around m' q').low * 2 ^ n : ℕ) * 2 ^ (q - 2) :=
        mul_lt_mul_of_pos_right (Nat.cast_lt.2 hends) hpos
      _ = (around m' q').low * 2 ^ (q' - 2) := hscale.symm
      _ ≤ v' := hlow
  · have hmeet : ((4 * m + 2 : ℕ) : ℚ) * 2 ^ (q - 2) = (around m' q').low * 2 ^ (q' - 2) := by
      rw [hscale, hends]
    rcases hodd with hm | hm'
    · have := (hv.lt_of_odd hm).2
      push_cast at hmeet
      linarith
    · have := (hv'.lt_of_odd hm').1
      linarith

/-- **A fraction lies in the interval of one double only.** -/
theorem eq_of_mem (h : Canonical m q) (h' : Canonical m' q') (hv : (around m q).Mem v)
    (hv' : (around m' q').Mem v) : m = m' ∧ q = q' := by
  by_contra hne
  have hcases : (q < q' ∨ q = q' ∧ m < m') ∨ (q' < q ∨ q' = q ∧ m' < m) := by omega
  rcases hcases with hlt | hlt
  · exact lt_irrefl v (lt_of_mem h h' hlt hv hv')
  · exact lt_irrefl v (lt_of_mem h' h hlt hv' hv)

/-- A fraction that is not greater lies in the interval of a double whose exponent is not greater.
-/
theorem exponent_le_of_mem (h : Canonical m q) (h' : Canonical m' q') (hv : (around m q).Mem v)
    (hv' : (around m' q').Mem v') (hle : v ≤ v') : q ≤ q' := by
  by_contra hlt
  have := lt_of_mem h' h (.inl (by omega)) hv' hv
  linarith

theorem value_le_of_mem (h : Canonical m q) (h' : Canonical m' q') (hv : (around m q).Mem v)
    (hv' : (around m' q').Mem v') (hle : v ≤ v') : (m : ℚ) * 2 ^ q ≤ m' * 2 ^ q' := by
  have hcases : (m = m' ∧ q = q') ∨ (q < q' ∨ q = q' ∧ m < m') ∨ (q' < q ∨ q' = q ∧ m' < m) := by
    omega
  rcases hcases with ⟨rfl, rfl⟩ | hlt | hlt
  · exact le_rfl
  · exact (lt_of_mem h h' hlt (mem_around_self m q) (mem_around_self m' q')).le
  · exact absurd (lt_of_mem h' h hlt hv' hv) (not_lt.2 hle)

end Interval

end MarkupTree.Decimal

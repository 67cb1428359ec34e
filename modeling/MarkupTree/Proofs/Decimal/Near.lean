import MarkupTree.Proofs.Decimal.Interval
import Mathlib.Tactic.Positivity
import Mathlib.Tactic.GCongr

/-!
# Errors of several roundings

A double is next to what is rounded to it: each is at most the other, enlarged by half a unit in the
last of fifty-three places, or by half the least double (`Interval.near_of_mem`). `Near k d` says of
two fractions that `k` such factors and an error `d` besides are enough, so the errors of roundings
in a row add up (`Near.trans`). In the end the error is put in units in the last place of a double
(`Interval.abs_sub_le_of_near`).
-/

namespace MarkupTree.Decimal

/-- The factor for half a unit in the last place. -/
def roundoff : ℚ := 1 + 1 / 2 ^ 53

/-- Half the least double. -/
def underflow : ℚ := 2 ^ (-1075 : ℤ)

/-- Each of two fractions is at most the other and `d`, enlarged by `k` factors. -/
def Near (k : ℕ) (d a b : ℚ) : Prop := a ≤ roundoff ^ k * (b + d) ∧ b ≤ roundoff ^ k * (a + d)

theorem underflow_pos : 0 < underflow := zpow_pos two_pos _

theorem two_mul_underflow : 2 * underflow = 2 ^ (-1074 : ℤ) := by
  rw [underflow, show (-1074 : ℤ) = -1075 + 1 by rfl, zpow_add_one₀ two_ne_zero, mul_comm]

theorem roundoff_pos : 0 < roundoff := by norm_num [roundoff]

theorem one_le_roundoff : 1 ≤ roundoff := by norm_num [roundoff]

/-- Two finite doubles have the same sign, and the second is at most so many units in the last place
of the first away from it. -/
def Binary64.Within (units : ℕ) : Binary64 → Binary64 → Prop
  | .finite negative m q, .finite negative' n r =>
    negative' = negative ∧ |(n : ℚ) * 2 ^ r - m * 2 ^ q| ≤ units * 2 ^ q
  | _, _ => False

namespace Near

variable {j k : ℕ} {d e a b c p r : ℚ}

/-- One of the two inequalities of `trans`. -/
theorem le_trans (hd : 0 ≤ d) (h : a ≤ roundoff ^ j * (b + d)) (h' : b ≤ roundoff ^ k * (c + e)) :
    a ≤ roundoff ^ (j + k) * (c + (d + e)) := by
  have hj : 0 ≤ roundoff ^ j := (pow_pos roundoff_pos j).le
  have hk : d ≤ roundoff ^ k * d := le_mul_of_one_le_left hd (one_le_pow₀ one_le_roundoff)
  calc a ≤ roundoff ^ j * (b + d) := h
    _ ≤ roundoff ^ j * (roundoff ^ k * (c + e) + roundoff ^ k * d) := by gcongr
    _ = roundoff ^ (j + k) * (c + (d + e)) := by ring

/-- **Errors add up.** -/
theorem trans (hd : 0 ≤ d) (he : 0 ≤ e) (h : Near j d a b) (h' : Near k e b c) :
    Near (j + k) (d + e) a c := by
  refine ⟨le_trans hd h.1 h'.1, ?_⟩
  have hback := le_trans he h'.2 h.2
  rwa [add_comm k, add_comm e] at hback

theorem mono (hd : d ≤ e) (hjk : j ≤ k) (ha : 0 ≤ a + d) (hb : 0 ≤ b + d) (h : Near j d a b) :
    Near k e a b := by
  have hpow : roundoff ^ j ≤ roundoff ^ k := pow_le_pow_right₀ one_le_roundoff hjk
  have hk : 0 ≤ roundoff ^ k := (pow_pos roundoff_pos k).le
  exact ⟨h.1.trans (by gcongr), h.2.trans (by gcongr)⟩

theorem mul_right (hp : 0 ≤ p) (h : Near k 0 a b) : Near k 0 (a * p) (b * p) := by
  unfold Near at *
  rw [add_zero, add_zero] at *
  rw [← mul_assoc, ← mul_assoc]
  exact ⟨mul_le_mul_of_nonneg_right h.1 hp, mul_le_mul_of_nonneg_right h.2 hp⟩

theorem div_right (hp : 0 < p) (h : Near k d a b) : Near k (d / p) (a / p) (b / p) := by
  unfold Near at *
  rw [← add_div, ← add_div, mul_div_assoc', mul_div_assoc']
  exact ⟨div_le_div_of_nonneg_right h.1 hp.le, div_le_div_of_nonneg_right h.2 hp.le⟩

theorem div_left (ha : 0 ≤ a) (hp : 0 < p) (hr : 0 < r) (h : Near k 0 p r) :
    Near k 0 (a / p) (a / r) := by
  unfold Near at *
  rw [add_zero, add_zero] at *
  rw [mul_div_assoc', mul_div_assoc']
  refine ⟨?_, ?_⟩
  · rw [div_le_div_iff₀ hp hr]
    nlinarith [mul_le_mul_of_nonneg_left h.2 ha]
  · rw [div_le_div_iff₀ hr hp]
    nlinarith [mul_le_mul_of_nonneg_left h.1 ha]

end Near

namespace Interval

open Binary64

variable {m : ℕ} {q : ℤ} {v : ℚ}

theorem Mem.unit_bounds (h : (around m q).Mem v) :
    ((around m q).low : ℚ) / 4 * 2 ^ q ≤ v ∧ v ≤ (m + 1 / 2) * 2 ^ q := by
  have hunit : (2 : ℚ) ^ (around m q).unit = 2 ^ q / 4 := by
    rw [show (around m q).unit = q - 2 by rfl, zpow_sub₀ two_ne_zero]
    norm_num
  have hhigh : ((around m q).high : ℚ) = 4 * m + 2 := by simp [around]
  obtain ⟨hle, hge⟩ := h.bounds
  rw [hunit] at hle hge
  rw [hhigh] at hge
  constructor <;> linarith

/-- A double is at most half a unit away from what is rounded to it. -/
theorem Mem.half_unit (h : (around m q).Mem v) :
    v ≤ m * 2 ^ q + 2 ^ q / 2 ∧ m * 2 ^ q ≤ v + 2 ^ q / 2 := by
  obtain ⟨hlow, hhigh⟩ := h.unit_bounds
  have hnat : 4 * m ≤ (around m q).low + 2 := by
    dsimp only [around]
    split <;> omega
  have hcast : (m - 1 / 2 : ℚ) ≤ ((around m q).low : ℚ) / 4 := by
    have : (4 * m : ℚ) ≤ (around m q).low + 2 := by exact_mod_cast hnat
    linarith
  have hle := mul_le_mul_of_nonneg_right hcast (two_zpow_pos q).le
  constructor <;> linarith

theorem near_of_lt (hc : Canonical m q) (hq : -1074 < q) (h : (around m q).Mem v) :
    Near 1 0 (m * 2 ^ q) v := by
  have hpos := two_zpow_pos q
  have hm : (2 ^ 52 : ℚ) ≤ m := by exact_mod_cast hc.hidden hq
  have hlarge := mul_le_mul_of_nonneg_right hm hpos.le
  obtain ⟨hlow, hhigh⟩ := h.unit_bounds
  unfold Near roundoff
  rw [pow_one, add_zero, add_zero]
  refine ⟨?_, by linarith⟩
  by_cases hfirst : m = hiddenBit
  · -- The double below a power of two is only half as far away.
    have hend : ((around m q).low : ℚ) = 4 * m - 1 := by
      have hnat : (around m q).low + 1 = 4 * m := by
        dsimp only [around]
        rw [if_pos ⟨hfirst, hq⟩, hfirst]
        decide
      have : ((around m q).low : ℚ) + 1 = 4 * m := by exact_mod_cast hnat
      linarith
    rw [hend] at hlow
    linarith
  · have hnext : (2 ^ 52 + 1 : ℚ) ≤ m := by
      have hnat : hiddenBit + 1 ≤ m := Nat.lt_of_le_of_ne (hc.hidden hq) (Ne.symm hfirst)
      exact_mod_cast hnat
    have hlarger := mul_le_mul_of_nonneg_right hnext hpos.le
    have hhalf := h.half_unit.2
    linarith

/-- In any case it is a factor, and at most half the least double besides. -/
theorem near_of_mem (hc : Canonical m q) (h : (around m q).Mem v) :
    Near 1 underflow (m * 2 ^ q) v := by
  have hX : (0 : ℚ) ≤ m * 2 ^ q := mul_nonneg (Nat.cast_nonneg m) (two_zpow_pos q).le
  have hv : 0 ≤ v := le_trans (by have := two_zpow_pos q; positivity) h.unit_bounds.1
  have hsmall := underflow_pos
  by_cases hq : -1074 < q
  · exact (near_of_lt hc hq h).mono hsmall.le le_rfl (by linarith) (by linarith)
  · obtain rfl : q = -1074 := le_antisymm (not_lt.1 hq) hc.le
    have hhalf : (2 : ℚ) ^ (-1074 : ℤ) / 2 = underflow := by linarith [two_mul_underflow]
    obtain ⟨hle, hge⟩ := h.half_unit
    rw [hhalf] at hle hge
    have hfactor := one_le_roundoff
    unfold Near
    rw [pow_one]
    exact ⟨hge.trans (le_mul_of_one_le_left (by linarith) hfactor),
      hle.trans (le_mul_of_one_le_left (by linarith) hfactor)⟩

/-- **Five roundings** leave a double at most eight units in the last place away from the one that
is next to the exact result. -/
theorem abs_sub_le_of_near {y : ℚ} (hc : Canonical m q) (hmem : (around m q).Mem v)
    (h : Near 5 (2 * underflow) y v) : |y - m * 2 ^ q| ≤ 8 * 2 ^ q := by
  have hpos := two_zpow_pos q
  obtain ⟨hle, hge⟩ := hmem.half_unit
  have hunderflow : 2 * underflow ≤ 2 ^ q := by
    rw [two_mul_underflow]
    exact zpow_le_zpow_right₀ one_le_two hc.le
  have hm : (m : ℚ) + 1 ≤ 2 ^ 53 := by
    have hnat : m + 1 ≤ 2 * hiddenBit := hc.lt
    exact_mod_cast hnat
  have hX := mul_le_mul_of_nonneg_right hm hpos.le
  have hfactor : roundoff ^ 5 ≤ 1 + 6 / 2 ^ 53 := by norm_num [roundoff]
  have hv : 0 ≤ v := le_trans (by positivity) hmem.unit_bounds.1
  have hsum : 0 ≤ v + 2 * underflow := by linarith [underflow_pos]
  have hsum' : 0 ≤ y + 2 * underflow :=
    nonneg_of_mul_nonneg_right (hv.trans h.2) (pow_pos roundoff_pos 5)
  have hy : y ≤ (1 + 6 / 2 ^ 53) * (v + 2 * underflow) :=
    h.1.trans (mul_le_mul_of_nonneg_right hfactor hsum)
  have hv' : v ≤ (1 + 6 / 2 ^ 53) * (y + 2 * underflow) :=
    h.2.trans (mul_le_mul_of_nonneg_right hfactor hsum')
  rw [abs_le]
  constructor <;> linarith

end Interval

end MarkupTree.Decimal

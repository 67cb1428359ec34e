import MarkupTree.Proofs.Decimal.Interval
import Mathlib.Tactic.FieldSimp
import Mathlib.Tactic.Positivity

/-!
# The shortest decimal lies in the interval

Comparisons with multiples of `scale` and `step` are comparisons of fractions
(`Interval.mul_scale_le_iff`). So a decimal that is found on one of the first grids lies in the
interval, as that is tested. On the last grid it is not: there half a step is less than the distance
to either end, since the value has fewer than sixteen digits before the last binary place
(`Interval.mem_nearest`). In both cases the shortest decimal lies in the interval around the double
(`mem_shortest`), and it has seventeen digits at most (`shortest_digits_le`).
-/

namespace MarkupTree.Decimal

/-! ## Digits -/

theorem digitCount_pos {n : ℕ} (h : 0 < n) : 0 < digitCount n := by
  rw [digitCount, if_neg h.ne']
  exact Nat.length_toDigits_pos

theorem lt_ten_pow_digitCount (n : ℕ) : n < 10 ^ digitCount n := by
  unfold digitCount
  split
  · omega
  · exact (Nat.length_toDigits_le_iff (by decide) Nat.length_toDigits_pos).1 le_rfl

theorem ten_pow_digitCount_le {n : ℕ} (h : 0 < n) : 10 ^ (digitCount n - 1) ≤ n := by
  by_contra hlt
  have hpos := digitCount_pos h
  rcases Nat.eq_or_lt_of_le hpos with hone | htwo
  · rw [← hone] at hlt
    exact hlt h
  · have := (Nat.length_toDigits_le_iff (by decide) (by omega)).2 (Nat.lt_of_not_le hlt)
    rw [digitCount, if_neg h.ne'] at this hpos
    omega

/-- The value of the digits with their exponent. -/
def Digits.value (d : Digits) : ℚ := d.digits * 10 ^ d.exponent

namespace Interval

open Binary64

theorem settle_value (c : ℕ) (k : ℤ) : (settle c k).value = c * 10 ^ k := by
  unfold settle
  split
  · rename_i hc
    rw [Digits.value, zpow_add_one₀ (by norm_num)]
    conv_rhs => rw [← Nat.div_mul_cancel (Nat.dvd_of_mod_eq_zero hc)]
    push_cast
    ring
  · rfl

theorem settle_digits_le (c : ℕ) (k : ℤ) : (settle c k).digits ≤ c := by
  unfold settle
  split
  · exact Nat.div_le_self c 10
  · exact le_rfl

/-! ## Shared denominators -/

theorem zpow_mul_pow_toNat {x : ℚ} (hx : x ≠ 0) (z : ℤ) : x ^ z * x ^ (-z).toNat = x ^ z.toNat := by
  rcases Int.eq_nat_or_neg z with ⟨n, rfl | rfl⟩
  · simp
  · simp [hx]

section Scale

variable (I : Interval) (k : ℤ)

theorem step_pos : 0 < I.step k :=
  Nat.mul_pos (Nat.pow_pos (by decide)) (Nat.pow_pos (by decide))

theorem scale_mul : (I.scale k : ℚ) * 10 ^ k = 2 ^ I.unit * I.step k := by
  have htwo := zpow_mul_pow_toNat (x := 2) two_ne_zero I.unit
  have hten := zpow_mul_pow_toNat (x := 10) (by norm_num) k
  have hscale : (I.scale k : ℚ) = 2 ^ I.unit.toNat * 10 ^ (-k).toNat := by simp [scale]
  have hstep : (I.step k : ℚ) = 10 ^ k.toNat * 2 ^ (-I.unit).toNat := by simp [step]
  rw [hscale, hstep, ← htwo, ← hten]
  ring

variable (a c : ℕ)

theorem mul_scale_le_iff :
    a * I.scale k ≤ c * I.step k ↔ (a : ℚ) * 2 ^ I.unit ≤ c * 10 ^ k := by
  have hpos : (0 : ℚ) < I.step k := Nat.cast_pos.2 (I.step_pos k)
  rw [← Nat.cast_le (α := ℚ), ← mul_le_mul_iff_left₀ (ten_zpow_pos k), Nat.cast_mul, Nat.cast_mul,
    mul_assoc, I.scale_mul k, ← mul_assoc, mul_right_comm (c : ℚ), mul_le_mul_iff_left₀ hpos]

theorem mul_step_le_iff :
    c * I.step k ≤ a * I.scale k ↔ (c : ℚ) * 10 ^ k ≤ a * 2 ^ I.unit := by
  have hpos : (0 : ℚ) < I.step k := Nat.cast_pos.2 (I.step_pos k)
  rw [← Nat.cast_le (α := ℚ), ← mul_le_mul_iff_left₀ (ten_zpow_pos k), Nat.cast_mul, Nat.cast_mul,
    mul_assoc (a : ℚ), I.scale_mul k, ← mul_assoc, mul_right_comm (c : ℚ), mul_le_mul_iff_left₀ hpos]

theorem mul_scale_lt_iff :
    a * I.scale k < c * I.step k ↔ (a : ℚ) * 2 ^ I.unit < c * 10 ^ k := by
  rw [← not_le, ← not_le, mul_step_le_iff]

theorem mul_step_lt_iff :
    c * I.step k < a * I.scale k ↔ (c : ℚ) * 10 ^ k < a * 2 ^ I.unit := by
  rw [← not_le, ← not_le, mul_scale_le_iff]

/-! ## The grids -/

/-- The test for a point of a grid says that it lies in the interval. -/
theorem contains_iff : I.contains c k = true ↔ I.Mem (c * 10 ^ k) := by
  unfold contains Mem
  split
  · simp [mul_scale_le_iff, mul_step_le_iff]
  · simp [mul_scale_lt_iff, mul_step_lt_iff]

theorem below_mul_le : I.below k * I.step k ≤ I.value * I.scale k := Nat.div_mul_le_self _ _

theorem lt_below_add_one_mul : I.value * I.scale k < (I.below k + 1) * I.step k := by
  rw [Nat.mul_comm (I.below k + 1)]
  exact Nat.lt_mul_div_succ _ (I.step_pos k)

theorem nearest_eq (tie : Tie) : I.nearest tie k = I.below k ∨ I.nearest tie k = I.below k + 1 := by
  unfold nearest
  dsimp only
  split_ifs
  · exact .inl rfl
  · exact .inr rfl
  · exact .inl rfl
  · exact .inr rfl

theorem nearest_le (tie : Tie) :
    2 * I.nearest tie k * I.step k ≤ 2 * (I.value * I.scale k) + I.step k ∧
      2 * (I.value * I.scale k) ≤ 2 * I.nearest tie k * I.step k + I.step k := by
  have hbelow := I.below_mul_le k
  have habove := I.lt_below_add_one_mul k
  unfold nearest
  dsimp only
  generalize I.value * I.scale k = value at *
  generalize I.step k = step at *
  generalize I.below k = c at *
  have hmiddle : (2 * c + 1) * step = 2 * (c * step) + step := by ring
  have hnext : (c + 1) * step = c * step + step := by ring
  have htwice (n : ℕ) : 2 * n * step = 2 * (n * step) := Nat.mul_assoc 2 n step
  rw [htwice, hmiddle]
  split_ifs <;> omega

theorem mem_of_onGrid? {tie : Tie} {c : ℕ} (h : I.onGrid? tie k = some c) :
    I.Mem (c * 10 ^ k) ∧ c ≤ I.below k + 1 := by
  unfold onGrid? at h
  dsimp only at h
  rw [← contains_iff]
  cases hlow : I.contains (I.below k) k <;> cases hhigh : I.contains (I.below k + 1) k <;>
    rw [hlow, hhigh] at h
  · cases h
  · cases h
    exact ⟨hhigh, le_rfl⟩
  · cases h
    exact ⟨hlow, Nat.le_succ _⟩
  · cases h
    rcases I.nearest_eq k tie with hc | hc
    · exact ⟨hc ▸ hlow, by omega⟩
    · exact ⟨hc ▸ hhigh, by omega⟩

end Scale

/-! ## The place of the first digit -/

/-- The first digit of a positive value stands where `firstPlace` says. -/
theorem firstPlace_spec {I : Interval} (h : 0 < I.value) :
    (10 : ℚ) ^ (I.firstPlace - 1) ≤ I.value * 2 ^ I.unit ∧
      (I.value : ℚ) * 2 ^ I.unit < 10 ^ I.firstPlace := by
  have hdenpos := I.step_pos 0
  have hnumpos : 0 < I.value * I.scale 0 :=
    Nat.mul_pos h (Nat.mul_pos (Nat.pow_pos (by decide)) (Nat.pow_pos (by decide)))
  have hvalue : (I.value : ℚ) * 2 ^ I.unit = (I.value * I.scale 0 : ℕ) / I.step 0 := by
    have hscale := I.scale_mul 0
    rw [eq_div_iff (Nat.cast_ne_zero.2 hdenpos.ne')]
    push_cast
    rw [mul_assoc, ← hscale]
    simp
  unfold firstPlace
  dsimp only
  rw [hvalue]
  generalize I.value * I.scale 0 = num at *
  generalize I.step 0 = den at *
  have hden : (0 : ℚ) < den := Nat.cast_pos.2 hdenpos
  have hnum : (0 : ℚ) < num := Nat.cast_pos.2 hnumpos
  split_ifs with hle
  · -- The whole part has as many digits as stand before the point.
    have hpos : 0 < num / den := Nat.div_pos hle hdenpos
    have hcount := digitCount_pos hpos
    have hlow := ten_pow_digitCount_le hpos
    have hhigh := lt_ten_pow_digitCount (num / den)
    generalize digitCount (num / den) = count at *
    obtain ⟨c, rfl⟩ := Nat.exists_eq_add_one_of_ne_zero hcount.ne'
    rw [Nat.add_sub_cancel, Nat.le_div_iff_mul_le hdenpos] at hlow
    rw [Nat.div_lt_iff_lt_mul hdenpos] at hhigh
    rw [show ((c + 1 : ℕ) : ℤ) - 1 = c by push_cast; ring, zpow_natCast, zpow_natCast,
      le_div_iff₀ hden, div_lt_iff₀ hden]
    exact ⟨by exact_mod_cast hlow, by exact_mod_cast hhigh⟩
  · -- The digits of the whole part of the inverse say how many zeros follow the point.
    have hdiv := Nat.div_add_mod (den + num - 1) num
    have hmod := Nat.mod_lt (den + num - 1) hnumpos
    generalize hceil : (den + num - 1) / num = ceil at *
    have hpos : 0 < ceil - 1 := by
      have : 2 ≤ ceil := by
        rw [← hceil, Nat.le_div_iff_mul_le hnumpos]
        omega
      omega
    have hcount := digitCount_pos hpos
    have hlow := ten_pow_digitCount_le hpos
    have hhigh := lt_ten_pow_digitCount (ceil - 1)
    generalize digitCount (ceil - 1) = count at *
    obtain ⟨c, rfl⟩ := Nat.exists_eq_add_one_of_ne_zero hcount.ne'
    rw [Nat.add_sub_cancel] at hlow
    have habove : den ≤ 10 ^ (c + 1) * num := by
      have hmul := Nat.mul_le_mul_right num (show ceil ≤ 10 ^ (c + 1) by omega)
      rw [Nat.mul_comm num] at hdiv
      omega
    have hbelow : 10 ^ c * num < den := by
      have hmul := Nat.mul_le_mul_right num (show 10 ^ c + 1 ≤ ceil by omega)
      rw [Nat.mul_comm num] at hdiv
      rw [Nat.add_mul] at hmul
      omega
    rw [show 1 - ((c + 1 : ℕ) : ℤ) - 1 = -((c + 1 : ℕ) : ℤ) by ring,
      show 1 - ((c + 1 : ℕ) : ℤ) = -(c : ℤ) by push_cast; ring, zpow_neg, zpow_neg, zpow_natCast,
      zpow_natCast, inv_le_iff_one_le_mul₀ (by positivity), div_mul_eq_mul_div, one_le_div hden,
      div_lt_iff₀ hden, inv_mul_eq_div, lt_div_iff₀ (by positivity)]
    exact ⟨by rw [mul_comm]; exact_mod_cast habove, by rw [mul_comm]; exact_mod_cast hbelow⟩

/-! ## The last grid -/

theorem two_mul_nearest_le (I : Interval) (tie : Tie) (k : ℤ) :
    (2 * (I.nearest tie k * 10 ^ k) : ℚ) ≤ 2 * (I.value * 2 ^ I.unit) + 10 ^ k ∧
      (2 * (I.value * 2 ^ I.unit) : ℚ) ≤ 2 * (I.nearest tie k * 10 ^ k) + 10 ^ k := by
  have hstep : (0 : ℚ) < I.step k := Nat.cast_pos.2 (I.step_pos k)
  have hten := (ten_zpow_pos k).le
  have hscale := I.scale_mul k
  obtain ⟨hle, hge⟩ := I.nearest_le k tie
  generalize I.nearest tie k = n at *
  constructor
  · have hcast : (2 * n * I.step k : ℚ) ≤ 2 * (I.value * I.scale k) + I.step k := by
      exact_mod_cast hle
    refine le_of_mul_le_mul_right ?_ hstep
    calc (2 * (n * 10 ^ k) : ℚ) * I.step k = 2 * n * I.step k * 10 ^ k := by ring
      _ ≤ (2 * (I.value * I.scale k) + I.step k) * 10 ^ k := mul_le_mul_of_nonneg_right hcast hten
      _ = 2 * (I.value * (I.scale k * 10 ^ k)) + I.step k * 10 ^ k := by ring
      _ = (2 * (I.value * 2 ^ I.unit) + 10 ^ k) * I.step k := by rw [hscale]; ring
  · have hcast : (2 * (I.value * I.scale k) : ℚ) ≤ 2 * n * I.step k + I.step k := by
      exact_mod_cast hge
    refine le_of_mul_le_mul_right ?_ hstep
    calc (2 * (I.value * 2 ^ I.unit) : ℚ) * I.step k = 2 * (I.value * (I.scale k * 10 ^ k)) := by
          rw [hscale]; ring
      _ = 2 * (I.value * I.scale k) * 10 ^ k := by ring
      _ ≤ (2 * n * I.step k + I.step k) * 10 ^ k := mul_le_mul_of_nonneg_right hcast hten
      _ = (2 * (n * 10 ^ k) + 10 ^ k) * I.step k := by ring

variable {m : ℕ} {q k : ℤ}

/-- The distance from the value down to the lower end is a half of the last binary place, or a
quarter at a power of two; so it is more than the mantissa's share of a half in ten to the
sixteenth. -/
theorem two_mul_lt_gap (h : Canonical m q) (hm : 0 < m) :
    (around m q).low ≤ 4 * m ∧ 2 * m < (4 * m - (around m q).low) * 10 ^ 16 := by
  obtain ⟨hlt, -, -⟩ := h
  have hlow : (around m q).low = 4 * m - 1 ∧ m = hiddenBit ∨ (around m q).low = 4 * m - 2 := by
    dsimp only [around]
    split
    · exact .inl ⟨rfl, by omega⟩
    · exact .inr rfl
  generalize (around m q).low = low at *
  unfold hiddenBit at *
  omega

/-- The nearest point lies in the interval if the step has sixteen places less than the value. -/
theorem mem_nearest (h : Canonical m q) (hm : 0 < m) (tie : Tie)
    (hk : (10 : ℚ) ^ k * 10 ^ 16 ≤ (around m q).value * 2 ^ (around m q).unit) :
    (around m q).Mem ((around m q).nearest tie k * 10 ^ k) := by
  obtain ⟨hle, hge⟩ := (around m q).two_mul_nearest_le tie k
  obtain ⟨hlow, hgap⟩ := two_mul_lt_gap h hm
  have hpos := two_zpow_pos (around m q).unit
  have hvalue : ((around m q).value : ℚ) = 4 * m := by simp [around]
  have hhigh : ((around m q).high : ℚ) = 4 * m + 2 := by simp [around]
  have hgap' : (2 * m : ℚ) < (4 * m - (around m q).low) * 10 ^ 16 := by
    have := (Nat.cast_lt (α := ℚ)).2 hgap
    push_cast [Nat.cast_sub hlow] at this
    exact this
  have hwidth : (2 * m : ℚ) < 2 * 10 ^ 16 := by
    have hbound : m < 10 ^ 16 := h.lt.trans_le (by norm_num [hiddenBit])
    have := (Nat.cast_lt (α := ℚ)).2 hbound
    push_cast at this
    linarith
  rw [hvalue] at hk hle hge
  have hlower := mul_lt_mul_of_pos_right hgap' hpos
  have hupper := mul_lt_mul_of_pos_right hwidth hpos
  refine mem_of_lt ?_ ?_
  · linarith
  · rw [hhigh]
    linarith

/-! ## The shortest decimal -/

/-- The shortest decimal is taken from one of sixteen grids, or is the nearest point of the next. -/
theorem exists_of_shortest (I : Interval) (tie : Tie) : ∃ c k, I.shortest tie = settle c k ∧
    I.firstPlace - 17 ≤ k ∧
      (I.onGrid? tie k = some c ∨ k = I.firstPlace - 17 ∧ c = I.nearest tie k) := by
  unfold shortest
  dsimp only
  cases hfound : (List.range 16).findSome? fun (n : Nat) =>
      (I.onGrid? tie (I.firstPlace - (n + 1))).map (settle · (I.firstPlace - (n + 1))) with
  | none => exact ⟨_, _, rfl, le_rfl, .inr ⟨rfl, rfl⟩⟩
  | some d =>
    obtain ⟨n, hn, hd⟩ := List.exists_of_findSome?_eq_some hfound
    obtain ⟨c, hc, rfl⟩ := Option.map_eq_some_iff.1 hd
    rw [List.mem_range] at hn
    exact ⟨c, _, rfl, by omega, .inl hc⟩

/-- **The shortest decimal lies in the interval around the double.** -/
theorem mem_shortest (h : Canonical m q) (hm : 0 < m) (tie : Tie) :
    (around m q).Mem (Decimal.shortest tie m q).value := by
  obtain ⟨c, k, hd, -, hc⟩ := (around m q).exists_of_shortest tie
  have hvalue : (Decimal.shortest tie m q).value = c * 10 ^ k := by
    rw [Decimal.shortest, hd, settle_value]
  rw [hvalue]
  rcases hc with hc | ⟨hk, rfl⟩
  · exact ((around m q).mem_of_onGrid? k hc).1
  · refine mem_nearest h hm tie ?_
    have hpos : 0 < (around m q).value := Nat.mul_pos (by decide) hm
    refine le_trans (le_of_eq ?_) (firstPlace_spec hpos).1
    rw [hk, ← zpow_natCast (10 : ℚ) 16, ← zpow_add₀ (by norm_num)]
    congr 1
    push_cast
    ring

theorem shortest_digits_le (q : ℤ) (hm : 0 < m) (tie : Tie) :
    (Decimal.shortest tie m q).digits ≤ 10 ^ 17 := by
  obtain ⟨c, k, hd, hk, hc⟩ := (around m q).exists_of_shortest tie
  have hpos : 0 < (around m q).value := Nat.mul_pos (by decide) hm
  have hbelow : (around m q).below k < 10 ^ 17 := by
    have hle := (mul_step_le_iff _ _ _ _).1 ((around m q).below_mul_le k)
    have hlt := hle.trans_lt (firstPlace_spec hpos).2
    have hplace : (10 : ℚ) ^ (around m q).firstPlace ≤ 10 ^ 17 * 10 ^ k := by
      rw [← zpow_natCast, ← zpow_add₀ (by norm_num)]
      exact zpow_le_zpow_right₀ (by norm_num) (by push_cast; omega)
    have := lt_of_mul_lt_mul_right (hlt.trans_le hplace) (ten_zpow_pos k).le
    exact_mod_cast this
  have hle : c ≤ (around m q).below k + 1 := by
    rcases hc with hc | ⟨-, rfl⟩
    · exact ((around m q).mem_of_onGrid? k hc).2
    · rcases (around m q).nearest_eq k tie with h | h <;> omega
  rw [Decimal.shortest, hd]
  exact (settle_digits_le c k).trans (by omega)

theorem low_pos (q : ℤ) (hm : 0 < m) : 0 < (around m q).low := by
  dsimp only [around]
  split <;> omega

theorem shortest_pos (h : Canonical m q) (hm : 0 < m) (tie : Tie) :
    0 < (Decimal.shortest tie m q).digits := by
  have hmem := (mem_shortest h hm tie).bounds.1
  rw [Nat.pos_iff_ne_zero]
  intro hzero
  have := mul_pos (Nat.cast_pos (α := ℚ).2 (low_pos q hm)) (two_zpow_pos (around m q).unit)
  rw [Digits.value, hzero] at hmem
  simp only [Nat.cast_zero, zero_mul] at hmem
  linarith

theorem shortest_exponent_bounds (h : Canonical m q) (hm : 0 < m) (hq : q ≤ 971) (tie : Tie) :
    -400 < (Decimal.shortest tie m q).exponent ∧ (Decimal.shortest tie m q).exponent < 309 := by
  obtain ⟨hlow, hhigh⟩ := (mem_shortest h hm tie).bounds
  have hpos := shortest_pos h hm tie
  have hle := shortest_digits_le q hm tie
  rw [Digits.value] at hlow hhigh
  generalize Decimal.shortest tie m q = d at *
  have hten := ten_zpow_pos d.exponent
  have hdigits : (1 : ℚ) ≤ d.digits := by exact_mod_cast hpos
  have hdigits' : (d.digits : ℚ) ≤ 10 ^ 17 := by exact_mod_cast hle
  constructor
  · -- The lower end of the interval is at least a quarter of the least subnormal number.
    by_contra hsmall
    have hvalue : (d.digits : ℚ) * 10 ^ d.exponent ≤ 10 ^ 17 * 10 ^ (-400 : ℤ) :=
      mul_le_mul hdigits' (zpow_le_zpow_right₀ (by norm_num) (by omega)) hten.le (by positivity)
    have hend : (2 : ℚ) ^ (-1076 : ℤ) ≤ (around m q).low * 2 ^ (around m q).unit := by
      have hunit : (2 : ℚ) ^ (-1076 : ℤ) ≤ 2 ^ (around m q).unit :=
        zpow_le_zpow_right₀ one_le_two (show -1076 ≤ q - 2 by have := h.le; omega)
      have hone : (1 : ℚ) ≤ (around m q).low := by exact_mod_cast low_pos q hm
      calc (2 : ℚ) ^ (-1076 : ℤ) ≤ 2 ^ (around m q).unit := hunit
        _ = 1 * 2 ^ (around m q).unit := (one_mul _).symm
        _ ≤ _ := mul_le_mul_of_nonneg_right hone (two_zpow_pos _).le
    have hends : (10 : ℚ) ^ 17 * 10 ^ (-400 : ℤ) < 2 ^ (-1076 : ℤ) := by
      have hnat : 10 ^ 17 * 2 ^ 1076 < 10 ^ 400 := by decide +kernel
      have hcast : (10 : ℚ) ^ 17 * 2 ^ 1076 < 10 ^ 400 := by exact_mod_cast hnat
      rw [zpow_neg, zpow_neg, ← div_eq_mul_inv, ← one_div,
        div_lt_div_iff₀ (ten_zpow_pos _) (two_zpow_pos _), one_mul]
      exact hcast
    exact absurd (hend.trans (hlow.trans hvalue)) (not_le.2 hends)
  · by_contra hlarge
    have hvalue : (10 : ℚ) ^ (309 : ℤ) ≤ d.digits * 10 ^ d.exponent := by
      calc (10 : ℚ) ^ (309 : ℤ) ≤ 10 ^ d.exponent :=
            zpow_le_zpow_right₀ (by norm_num) (by omega)
        _ = 1 * 10 ^ d.exponent := (one_mul _).symm
        _ ≤ _ := mul_le_mul_of_nonneg_right hdigits hten.le
    have hend : ((around m q).high : ℚ) * 2 ^ (around m q).unit ≤ 2 ^ 55 * 2 ^ (969 : ℤ) := by
      have hhigh : (around m q).high ≤ 2 ^ 55 := by
        show 4 * m + 2 ≤ 2 ^ 55
        have := h.lt
        unfold hiddenBit at this
        omega
      refine mul_le_mul (by exact_mod_cast hhigh) ?_ (two_zpow_pos _).le (by positivity)
      exact zpow_le_zpow_right₀ one_le_two (show q - 2 ≤ 969 by omega)
    have hends : (2 : ℚ) ^ 55 * 2 ^ (969 : ℤ) < 10 ^ (309 : ℤ) := by
      have hnat : 2 ^ 55 * 2 ^ 969 < 10 ^ 309 := by decide +kernel
      exact_mod_cast hnat
    exact absurd (hvalue.trans (hhigh.trans hend)) (not_le.2 hends)

end Interval

end MarkupTree.Decimal

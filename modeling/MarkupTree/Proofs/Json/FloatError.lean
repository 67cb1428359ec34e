import MarkupTree.Proofs.Decimal.Near
import MarkupTree.Proofs.Json.FloatValue

/-!
# How far the reader's double is off

Digits, power of ten and product are rounded; a quotient by a power beyond `10 ^ 308` is rounded
twice, and so is the power. Those are five roundings at most (`floatOf?_near`), so that a double
that is written and read comes back within eight units in the last place
(`floatOf?_scannedDigits_near`).
-/

namespace MarkupTree.Decimal.Binary64

open MarkupTree.Decimal.Interval

variable {m : ℕ} {q : ℤ} {v : ℚ}

theorem Rounds.near (h : Rounds v (.finite false m q)) : Near 1 underflow (m * 2 ^ q) v := by
  obtain ⟨n, r, hc, hmem, heq⟩ := h
  split at heq
  · obtain ⟨-, rfl, rfl⟩ := Binary64.finite.inj heq
    exact near_of_mem hc hmem
  · cases heq

theorem near_of_one_le (hc : Canonical m q) (hmem : (around m q).Mem v) (hone : 1 ≤ v) :
    Near 1 0 (m * 2 ^ q) v := by
  have hself := mem_around_self hiddenBit (-52)
  rw [hiddenBit_mul_zpow] at hself
  have hq := exponent_le_of_mem canonical_one hc hself hmem hone
  exact near_of_lt hc (by omega) hmem

end MarkupTree.Decimal.Binary64

namespace MarkupTree.Json

open Decimal Decimal.Binary64 Decimal.Interval

variable {x y : Float} {m n : ℕ} {q r : ℤ} {v : ℚ} {s k : ℕ}

/-! ## The factors -/

theorem exists_near_toFloat (hs : 0 < s) (hfits : s ≤ maxSignificand) :
    ∃ m q, ofFloat s.toUInt64.toFloat = .finite false m q ∧ 0 < m ∧ 1 ≤ (m : ℚ) * 2 ^ q ∧
      Near 1 0 (m * 2 ^ q) s := by
  obtain ⟨m, q, hx, hm, hmem⟩ := exists_toFloat hs hfits
  have hone : (1 : ℚ) ≤ s := by exact_mod_cast hs
  have hc := (canonical_of_ofFloat hx).1
  exact ⟨m, q, hx, hm, (one_le_of_mem hc hmem hone).2, near_of_one_le hc hmem hone⟩

theorem exists_near_powerOfTen (hn : k ≤ 308) :
    ∃ m q, ofFloat (powerOfTen k) = .finite false m q ∧ 0 < m ∧ 1 ≤ (m : ℚ) * 2 ^ q ∧
      Near 1 0 (m * 2 ^ q) (10 ^ k) := by
  obtain ⟨m, q, hp, hm, hmem, hone⟩ := exists_powerOfTen hn
  have hpow : (1 : ℚ) ≤ 10 ^ k := one_le_pow₀ (by norm_num)
  exact ⟨m, q, hp, hm, hone, near_of_one_le (canonical_of_ofFloat hp).1 hmem hpow⟩

/-! ## Products and quotients -/

theorem floatOf?_near_natCast (hs : 0 < s) (hfits : s ≤ maxSignificand) (hk : k ≤ 308)
    (h : floatOf? s k = some y) (hy : ofFloat y = .finite false n r) :
    Near 3 underflow (n * 2 ^ r) (s * 10 ^ k) := by
  obtain ⟨m, q, hx, hm, hxone, hxnear⟩ := exists_near_toFloat hs hfits
  obtain ⟨m', q', hp, hm', hpone, hpnear⟩ := exists_near_powerOfTen hk
  rw [floatOf?_natCast s hk] at h
  split at h
  · cases h
  · obtain rfl := Option.some.inj h
    have hrounds := rounds_mul hx hp hm hm'
    rw [hy] at hrounds
    have hdigits : Near 1 0 (m * 2 ^ q * (m' * 2 ^ q')) (s * (m' * 2 ^ q')) :=
      hxnear.mul_right (by linarith)
    have hpower : Near 1 0 (s * (m' * 2 ^ q')) (s * 10 ^ k) := by
      rw [mul_comm (s : ℚ), mul_comm (s : ℚ)]
      exact hpnear.mul_right (Nat.cast_nonneg s)
    have hexact := hdigits.trans le_rfl le_rfl hpower
    have hall := hrounds.near.trans underflow_pos.le (by norm_num) hexact
    rwa [add_zero, add_zero] at hall

theorem near_div {d : ℚ} {j : ℕ} (hd : 0 ≤ d) (hx : ofFloat x = .finite false m q) (hm : 0 < m)
    (hxnear : Near j d (m * 2 ^ q) v) (hv : 0 ≤ v) (hk : k ≤ 308)
    (hy : ofFloat (x / powerOfTen k) = .finite false n r) :
    Near (j + 2) (d + underflow) (n * 2 ^ r) (v / 10 ^ k) := by
  obtain ⟨m', q', hp, hm', hone, hpnear⟩ := exists_near_powerOfTen hk
  have hpos : (0 : ℚ) < m' * 2 ^ q' := by linarith
  have hten : (0 : ℚ) < 10 ^ k := pow_pos (by norm_num) k
  have hrounds := rounds_div hx hp hm hm'
  rw [hy] at hrounds
  have hquotient := hxnear.div_right hpos
  have hpower : Near 1 0 (v / (m' * 2 ^ q')) (v / 10 ^ k) := hpnear.div_left hv hpos hten
  have hexact := hquotient.trans (div_nonneg hd hpos.le) le_rfl hpower
  have hall := hrounds.near.trans underflow_pos.le (by positivity) hexact
  have hless : d / (m' * 2 ^ q') ≤ d := div_le_self hd hone
  have hunderflow := underflow_pos
  have hunit := two_zpow_pos r
  exact hall.mono (by linarith) (by omega) (by positivity) (by positivity)

theorem underflow_lt (hs : 0 < s) : roundoff ^ (1 + 2) * underflow < s / 10 ^ 308 := by
  obtain ⟨m, q, hp, -, -, -, hten⟩ := exists_near_powerOfTen (le_refl 308)
  obtain ⟨⟨hm, -, -⟩, hq⟩ := canonical_of_ofFloat hp
  have hgreatest : (m * 2 ^ q : ℚ) ≤ 2 ^ (1024 : ℤ) :=
    calc (m * 2 ^ q : ℚ) ≤ 2 ^ (53 : ℤ) * 2 ^ (971 : ℤ) :=
          mul_le_mul (by exact_mod_cast hm.le) (zpow_le_zpow_right₀ one_le_two hq)
            (two_zpow_pos q).le (two_zpow_pos 53).le
      _ = 2 ^ (1024 : ℤ) := (zpow_add₀ two_ne_zero 53 971).symm
  have hone : (1 : ℚ) ≤ s := by exact_mod_cast hs
  rw [pow_one, add_zero] at hten
  rw [lt_div_iff₀ (pow_pos (by norm_num) 308)]
  calc roundoff ^ (1 + 2) * underflow * 10 ^ 308
      ≤ roundoff ^ (1 + 2) * underflow * (roundoff * 2 ^ (1024 : ℤ)) := by
        refine mul_le_mul_of_nonneg_left (hten.trans ?_) ?_
        · exact mul_le_mul_of_nonneg_left hgreatest roundoff_pos.le
        · exact mul_nonneg (pow_pos roundoff_pos _).le underflow_pos.le
    _ = roundoff ^ 4 * (underflow * 2 ^ (1024 : ℤ)) := by ring
    _ = roundoff ^ 4 * 2 ^ (-51 : ℤ) := by
        rw [underflow, ← zpow_add₀ two_ne_zero]
        rfl
    _ < 1 := by norm_num [roundoff]
    _ ≤ s := hone

/-- A quotient by a power of ten is rounded three times, or five if it takes two steps. -/
theorem floatOf?_near_neg (hs : 0 < s) (hfits : s ≤ maxSignificand) (hk : 0 < k) (hk' : k ≤ 616)
    (h : floatOf? s (-(k : ℤ)) = some y) (hy : ofFloat y = .finite false n r) :
    Near 5 (2 * underflow) (n * 2 ^ r) (s / 10 ^ k) := by
  obtain ⟨m, q, hx, hm, hxone, hxnear⟩ := exists_near_toFloat hs hfits
  have hpos := underflow_pos
  rw [floatOf?_neg s hk, Option.some_inj] at h
  subst h
  by_cases hsmall : k ≤ 308
  · rw [show (k - 1) / 308 = 0 by omega] at hy
    have hall := near_div le_rfl hx hm hxnear (Nat.cast_nonneg s) hsmall hy
    have hunit := two_zpow_pos r
    exact hall.mono (by linarith) (by decide) (by positivity) (by positivity)
  · -- The first quotient is rounded on its own, and not to zero.
    obtain ⟨i, rfl⟩ : ∃ i, k = 308 + i := ⟨k - 308, by omega⟩
    rw [show (308 + i - 1) / 308 = 1 by omega, show 308 + i - 308 * 1 = i by omega,
      shrink_succ hx hm] at hy
    obtain ⟨_, _, hp, hn, -, hone⟩ := exists_powerOfTen (le_refl 308)
    obtain ⟨l, t, hz⟩ := finite_div hx hp hn hone
    have hznear := near_div le_rfl hx hm hxnear (Nat.cast_nonneg s) le_rfl hz
    have hl : 0 < l := by
      refine Nat.pos_of_ne_zero ?_
      rintro rfl
      have hzero := hznear.2
      rw [Nat.cast_zero, zero_mul, zero_add, zero_add] at hzero
      exact absurd hzero (not_le.2 (underflow_lt hs))
    have hall := near_div (by linarith) hz hl hznear (by positivity) (by omega) hy
    rw [div_div, ← pow_add, zero_add, ← two_mul] at hall
    exact hall

/-- **The reader's double is off by five roundings at most** from the number that the digits and the
exponent stand for. -/
theorem floatOf?_near {d : Digits} (hd : 0 < d.digits) (hfits : d.digits ≤ maxSignificand)
    (hlow : -616 ≤ d.exponent) (hhigh : d.exponent ≤ 308)
    (h : floatOf? d.digits d.exponent = some y) (hy : ofFloat y = .finite false n r) :
    Near 5 (2 * underflow) (n * 2 ^ r) d.value := by
  obtain ⟨s, e⟩ := d
  dsimp only [Digits.value] at *
  obtain ⟨k, hk⟩ := Int.eq_nat_or_neg e
  by_cases hnonneg : 0 ≤ e
  · obtain rfl : e = k := by omega
    have hpos := underflow_pos
    have hunit := two_zpow_pos r
    rw [zpow_natCast]
    exact (floatOf?_near_natCast hd hfits (by omega) h hy).mono (by linarith) (by decide)
      (by positivity) (by positivity)
  · obtain rfl : e = -k := by omega
    rw [zpow_neg, zpow_natCast, ← div_eq_mul_inv]
    exact floatOf?_near_neg hd hfits (by omega) (by omega) h hy

/-- **What comes back is at most eight units in the last place away.** -/
theorem floatOf?_scannedDigits_near (hc : Canonical m q) (hm : 0 < m) (hq : q ≤ 971)
    (h : floatOf? (scannedDigits m q).digits (scannedDigits m q).exponent = some y)
    (hy : ofFloat y = .finite false n r) : |(n : ℚ) * 2 ^ r - m * 2 ^ q| ≤ 8 * 2 ^ q := by
  obtain ⟨hpos, hle, hlow, hhigh⟩ := scannedDigits_bounds hc hm hq
  have hmem := mem_shortest hc hm .toEven
  rw [← scannedDigits_value hm] at hmem
  exact abs_sub_le_of_near hc hmem
    (floatOf?_near hpos (hle.trans (by decide)) (by omega) hhigh h hy)

end MarkupTree.Json

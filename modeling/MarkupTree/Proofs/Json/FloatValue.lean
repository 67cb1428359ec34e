import MarkupTree.Proofs.Json.FloatText

/-!
# The double for digits and an exponent

The reader rounds the digits, rounds the power of ten, and rounds the product or quotient. If the
first two are doubles themselves, the double is the one in whose interval the written decimal lies
(`floatOf?_of_exact`). In any case there is one: the text of a double is never read as a number out
of range (`exists_floatOf?_scannedDigits`), since products are in the order of their factors
(`exists_floatOf?_of_le`) and those at the upper edge are finite (`floatOf?_edge`).
-/

namespace MarkupTree.Decimal.Binary64

open Float.Model MarkupTree.Decimal.Interval

variable {x y p : Float} {m n : ℕ} {q r : ℤ} {v v' : ℚ} {b : Binary64}

/-- What is not greater than a fraction in the interval of a double is rounded to a double. -/
theorem Rounds.finite (h : Rounds v b) (hc : Canonical m q) (hq : q ≤ 971)
    (hv' : (around m q).Mem v') (hle : v ≤ v') :
    ∃ n r, b = .finite false n r ∧ Canonical n r ∧ r ≤ 971 ∧ (around n r).Mem v := by
  obtain ⟨n, r, hcn, hv, rfl⟩ := h
  have hr : r ≤ 971 := (exponent_le_of_mem hcn hc hv hv' hle).trans hq
  exact ⟨n, r, by rw [if_pos hr], hcn, hr, hv⟩

theorem canonical_one : Canonical hiddenBit (-52) := ⟨by decide, by decide, fun _ => le_rfl⟩

theorem canonical_zero : Canonical 0 (-1074) :=
  ⟨by decide, le_rfl, fun h => absurd h (lt_irrefl _)⟩

theorem hiddenBit_mul_zpow : (hiddenBit : ℚ) * 2 ^ (-52 : ℤ) = 1 := by norm_num [hiddenBit]

/-- What is at least one is rounded to a double that is at least one. -/
theorem one_le_of_mem (hc : Canonical m q) (hv : (around m q).Mem v) (hone : 1 ≤ v) :
    0 < m ∧ 1 ≤ (m : ℚ) * 2 ^ q := by
  have hself : (around hiddenBit (-52)).Mem 1 := by
    have := mem_around_self hiddenBit (-52)
    rwa [hiddenBit_mul_zpow] at this
  have hle := value_le_of_mem canonical_one hc hself hv hone
  rw [hiddenBit_mul_zpow] at hle
  refine ⟨Nat.pos_of_ne_zero ?_, hle⟩
  rintro rfl
  norm_num at hle

/-! ## Zero and infinity -/

theorem isInf_eq_false (h : ofFloat x = .finite false m q) : x.isInf = false := by
  show x.toModel.unpack.isInf = false
  rw [ofFloat_eq_ofUnpacked] at h
  rcases finite_of_ofUnpacked h with ⟨-, s, -, hu⟩ | ⟨s, -, hm, hu⟩ <;> rw [hu] <;> rfl

theorem isInf_eq_true (h : ofFloat x = .infinity false) : x.isInf = true := by
  show x.toModel.unpack.isInf = true
  rw [ofFloat_eq_ofUnpacked] at h
  generalize x.toModel.unpack = u at h
  cases u with
  | infinity s => rfl
  | notANumber | zero s | finite s => cases h

theorem ofFloat_zero_div (hx : ofFloat x = .finite false 0 q) (hp : ofFloat p = .finite false n r)
    (hn : 0 < n) : ofFloat (x / p) = .finite false 0 (-1074) := by
  have hzero : x.toModel.unpack = .zero .positive := by
    rw [ofFloat_eq_ofUnpacked] at hx
    rcases finite_of_ofUnpacked hx with ⟨-, s, hs, hu⟩ | ⟨s, -, hm, -⟩
    · cases s with
      | negative => cases hs
      | positive => exact hu
    · exact absurd hm (lt_irrefl 0)
  have hquotient : x / p = .ofModel (.pack (.zero .positive)) := by
    show Float.ofModel (.pack (UnpackedFloat.div .binary64 x.toModel.unpack p.toModel.unpack)) = _
    rw [hzero, unpack_of_ofFloat hp hn]
    rfl
  rw [hquotient]
  exact ofFloat_pack rfl canonical_zero

theorem finite_div (hx : ofFloat x = .finite false m q) (hp : ofFloat p = .finite false n r)
    (hn : 0 < n) (hone : 1 ≤ (n : ℚ) * 2 ^ r) : ∃ m q, ofFloat (x / p) = .finite false m q := by
  rcases Nat.eq_zero_or_pos m with rfl | hm
  · exact ⟨0, -1074, ofFloat_zero_div hx hp hn⟩
  · obtain ⟨hc, hq⟩ := canonical_of_ofFloat hx
    have hle : (m * 2 ^ q / (n * 2 ^ r) : ℚ) ≤ m * 2 ^ q := by
      refine div_le_self ?_ hone
      exact mul_nonneg (Nat.cast_nonneg m) (two_zpow_pos q).le
    obtain ⟨m', q', h, -⟩ := (rounds_div hx hp hm hn).finite hc hq (mem_around_self m q) hle
    exact ⟨m', q', h⟩

end MarkupTree.Decimal.Binary64

namespace MarkupTree.Json

open Decimal Decimal.Binary64 Decimal.Interval

/-! ## Powers of ten -/

theorem integer?_powerOfTen : ∀ n < 23, (ofFloat (powerOfTen n)).integer? = some (10 ^ n) := by
  decide +kernel

theorem ofFloat_of_integer? {x : Float} {n : ℕ} (h : (ofFloat x).integer? = some (n : ℤ))
    (hn : 0 < n) : ∃ m q, ofFloat x = .finite false m q ∧ 0 < m ∧ (m : ℚ) * 2 ^ q = n := by
  have hvalue := integer?_eq_some_iff.1 h
  cases hx : ofFloat x with
  | nan | infinity => rw [hx] at hvalue; cases hvalue
  | finite negative m q =>
    rw [hx, value?, Option.some_inj] at hvalue
    have hpos : (0 : ℚ) < n := Nat.cast_pos.2 hn
    have hmagnitude : (0 : ℚ) ≤ m * 2 ^ q := mul_nonneg (Nat.cast_nonneg m) (two_zpow_pos q).le
    cases negative with
    | false =>
      refine ⟨m, q, rfl, Nat.pos_of_ne_zero ?_, by simpa [signFactor] using hvalue⟩
      rintro rfl
      simp only [Nat.cast_zero, mul_zero, zero_mul] at hvalue
      exact hpos.ne' hvalue.symm
    | true =>
      simp only [signFactor, if_true] at hvalue
      push_cast at hvalue
      linarith

theorem rounds_powerOfTen (n : ℕ) (h : n ≤ 308) : Rounds (10 ^ n) (ofFloat (powerOfTen n)) := by
  by_cases hsmall : n < 23
  · have hpos : 0 < 10 ^ n := Nat.pow_pos (by decide)
    obtain ⟨m, q, hx, -, hvalue⟩ := ofFloat_of_integer? (n := 10 ^ n)
      (by exact_mod_cast integer?_powerOfTen n hsmall) hpos
    have := rounds_self hx
    rw [hvalue] at this
    exact_mod_cast this
  · have hpower : powerOfTen n = .ofModel (.pack (Float.Model.UnpackedFloat.roundWithAccuracy .binary64
        .positive (1 <<< 53 * 10 ^ n) (-53 + 0) .exact)) := by
      unfold powerOfTen Float.ofScientific
      rw [dif_neg (by omega)]
      show Float.ofModel (.pack (Float.Model.UnpackedFloat.ofScientific .binary64 1 (n : ℤ))) = _
      unfold Float.Model.UnpackedFloat.ofScientific
      rw [dif_neg one_ne_zero, if_neg (show ¬(n : ℤ) > 2 ^ 11 by omega),
        if_neg (show ¬(n : ℤ) < -(2 ^ 11 + (Nat.log2 1 : ℕ)) by omega), if_pos (by omega)]
      rfl
    have hvalue : (10 : ℚ) ^ n = (1 <<< 53 * 10 ^ n : ℕ) * 2 ^ (-53 + 0 : ℤ) := by
      rw [Nat.shiftLeft_eq, one_mul, add_zero, zpow_neg]
      push_cast
      field_simp
    rw [hpower, hvalue]
    refine rounds_pack (describes_exact _) (.inl ?_)
    refine le_trans (by decide) (Nat.le_mul_of_pos_right _ (Nat.pow_pos (by decide)))

theorem canonical_greatest : Canonical (2 * hiddenBit - 1) 971 :=
  ⟨by decide, by decide, fun _ => by decide⟩

/-- A power of ten up to that bound is a double that is at least one. -/
theorem exists_powerOfTen {n : ℕ} (h : n ≤ 308) : ∃ m q, ofFloat (powerOfTen n) = .finite false m q ∧
    0 < m ∧ (around m q).Mem (10 ^ n) ∧ 1 ≤ (m : ℚ) * 2 ^ q := by
  have hle : (10 : ℚ) ^ n ≤ (2 * hiddenBit - 1 : ℕ) * 2 ^ (971 : ℤ) := by
    have hgreatest : 10 ^ 308 ≤ (2 * hiddenBit - 1) * 2 ^ 971 := by decide +kernel
    have hnat := (pow_le_pow_right₀ (by decide) h).trans hgreatest
    exact_mod_cast hnat
  obtain ⟨m, q, hx, hc, -, hmem⟩ :=
    (rounds_powerOfTen n h).finite canonical_greatest le_rfl (mem_around_self _ _) hle
  obtain ⟨hm, hone⟩ := one_le_of_mem hc hmem (one_le_pow₀ (by norm_num))
  exact ⟨m, q, hx, hm, hmem, hone⟩

/-! ## The two factors -/

variable {s s' k k' : ℕ}

theorem exists_toFloat (hs : 0 < s) (hfits : s ≤ maxSignificand) :
    ∃ m q, ofFloat s.toUInt64.toFloat = .finite false m q ∧ 0 < m ∧ (around m q).Mem s := by
  have hnat : s.toUInt64.toNat = s := UInt64.toNat_ofNat_of_lt (Nat.lt_succ_of_le hfits)
  have hrounds := rounds_toFloat (n := s.toUInt64) (by omega)
  rw [hnat] at hrounds
  have hbound : Canonical hiddenBit 12 := ⟨by decide, by decide, fun _ => le_rfl⟩
  have hle : (s : ℚ) ≤ hiddenBit * 2 ^ (12 : ℤ) := by
    have hnat : s ≤ hiddenBit * 2 ^ 12 := hfits.trans (by decide)
    exact_mod_cast hnat
  obtain ⟨m, q, hx, hc, -, hmem⟩ := hrounds.finite hbound (by decide) (mem_around_self _ _) hle
  exact ⟨m, q, hx, (one_le_of_mem hc hmem (by exact_mod_cast hs)).1, hmem⟩

theorem floatOf?_natCast (s : ℕ) (h : k ≤ 308) : floatOf? s k =
    if (s.toUInt64.toFloat * powerOfTen k).isInf then none
    else some (s.toUInt64.toFloat * powerOfTen k) := by
  unfold floatOf?
  dsimp only
  rw [if_pos (by omega), if_pos (by omega)]
  rfl

/-- Lesser digits with a lesser exponent are not out of range if others are not. -/
theorem exists_floatOf?_of_le (hs : 0 < s) (hle : s ≤ s') (hfits : s' ≤ maxSignificand) (hk : k ≤ k')
    (hk' : k' ≤ 308) (h : (floatOf? s' k').isSome) :
    ∃ y, floatOf? s k = some y ∧ ∃ m q, ofFloat y = .finite false m q := by
  obtain ⟨m, q, hx, hm, hxmem⟩ := exists_toFloat hs (hle.trans hfits)
  obtain ⟨m', q', hx', hm', hxmem'⟩ := exists_toFloat (hs.trans_le hle) hfits
  obtain ⟨n, r, hp, hn, hpmem, -⟩ := exists_powerOfTen (hk.trans hk')
  obtain ⟨n', r', hp', hn', hpmem', -⟩ := exists_powerOfTen hk'
  have hxle : (m : ℚ) * 2 ^ q ≤ m' * 2 ^ q' :=
    value_le_of_mem (canonical_of_ofFloat hx).1 (canonical_of_ofFloat hx').1 hxmem hxmem'
      (Nat.cast_le.2 hle)
  have hple : (n : ℚ) * 2 ^ r ≤ n' * 2 ^ r' :=
    value_le_of_mem (canonical_of_ofFloat hp).1 (canonical_of_ofFloat hp').1 hpmem hpmem'
      (pow_le_pow_right₀ (by norm_num) hk)
  have hproduct : (m * 2 ^ q * (n * 2 ^ r) : ℚ) ≤ m' * 2 ^ q' * (n' * 2 ^ r') :=
    mul_le_mul hxle hple (mul_nonneg (Nat.cast_nonneg n) (two_zpow_pos r).le)
      (mul_nonneg (Nat.cast_nonneg m') (two_zpow_pos q').le)
  obtain ⟨l, t, hc, hmem, hy'⟩ := rounds_mul hx' hp' hm' hn'
  have ht : t ≤ 971 := by
    by_contra hlarge
    rw [if_neg hlarge] at hy'
    rw [floatOf?_natCast s' hk', isInf_eq_true hy'] at h
    cases h
  obtain ⟨l', t', hy, -⟩ := (rounds_mul hx hp hm hn).finite hc ht hmem hproduct
  refine ⟨_, ?_, l', t', hy⟩
  rw [floatOf?_natCast s (hk.trans hk'), isInf_eq_false hy]
  rfl

/-! ## Division in steps -/

theorem shrink_succ {x : Float} {m : ℕ} {q : ℤ} (hx : ofFloat x = .finite false m q) (hm : 0 < m)
    (steps : ℕ) : shrink (steps + 1) x = shrink steps (x / powerOfTen 308) := by
  have hne : ¬(x == 0) = true := by
    intro hzero
    have hvalue : ofFloat 0 = .finite false 0 (-1074) := rfl
    rcases ofFloat_of_beq hzero with heq | ⟨_, _, heq, -⟩
    · rw [hx, hvalue] at heq
      exact hm.ne' (Binary64.finite.inj heq).2.1
    · rw [hx] at heq
      exact hm.ne' (Binary64.finite.inj heq).2.1
  rw [shrink, if_neg hne]

theorem finite_shrink {x : Float} {m : ℕ} {q : ℤ} (hx : ofFloat x = .finite false m q) (steps : ℕ) :
    ∃ m q, ofFloat (shrink steps x) = .finite false m q := by
  induction steps generalizing x m q with
  | zero => exact ⟨m, q, hx⟩
  | succ steps ih =>
    rw [shrink]
    split
    · exact ⟨m, q, hx⟩
    · obtain ⟨n, r, hp, hn, -, hone⟩ := exists_powerOfTen (le_refl 308)
      obtain ⟨m', q', hy⟩ := finite_div hx hp hn hone
      exact ih hy

theorem floatOf?_neg (s : ℕ) (hk : 0 < k) : floatOf? s (-(k : ℤ)) =
    some (shrink ((k - 1) / 308) s.toUInt64.toFloat / powerOfTen (k - 308 * ((k - 1) / 308))) := by
  unfold floatOf?
  dsimp only
  rw [if_neg (by omega), Int.neg_neg, Int.toNat_natCast]

theorem exists_floatOf?_neg (hs : 0 < s) (hfits : s ≤ maxSignificand) (hk : 0 < k) :
    ∃ y, floatOf? s (-(k : ℤ)) = some y ∧ ∃ m q, ofFloat y = .finite false m q := by
  obtain ⟨m, q, hx, -, -⟩ := exists_toFloat hs hfits
  obtain ⟨m', q', hy⟩ := finite_shrink hx ((k - 1) / 308)
  obtain ⟨n, r, hp, hn, -, hone⟩ := exists_powerOfTen (show k - 308 * ((k - 1) / 308) ≤ 308 by omega)
  exact ⟨_, floatOf?_neg s hk, finite_div hy hp hn hone⟩

/-! ## The doubles that are written -/

variable {m : ℕ} {q : ℤ}

/-- What the digits and the exponent that are gathered can be. -/
theorem scannedDigits_bounds (h : Canonical m q) (hm : 0 < m) (hq : q ≤ 971) :
    0 < (scannedDigits m q).digits ∧ (scannedDigits m q).digits ≤ 10 ^ 17 ∧
      -400 < (scannedDigits m q).exponent ∧ (scannedDigits m q).exponent ≤ 308 := by
  have hpos := shortest_pos h hm .toEven
  have hle := shortest_digits_le q hm .toEven
  have hexponent := shortest_exponent_bounds h hm hq .toEven
  unfold scannedDigits
  dsimp only
  rw [if_neg hm.ne']
  split
  · rename_i hplain
    have hbound := mul_ten_pow_lt_of_isPlain hplain.1 hplain.2
    refine ⟨Nat.mul_pos hpos (Nat.pow_pos (by decide)), ?_, by norm_num, by norm_num⟩
    dsimp only
    rw [Nat.pow_eq, pow_succ, ← mul_assoc]
    omega
  · exact ⟨hpos, hle, by omega⟩

/-- The decimal for the greatest double. -/
theorem shortest_greatest :
    shortest .toEven (2 * hiddenBit - 1) 971 = ⟨17976931348623157, 292⟩ := by decide +kernel

theorem shortest_value_le (h : Canonical m q) (hm : 0 < m) (hq : q ≤ 971) :
    (shortest .toEven m q).value ≤ 17976931348623157 * 10 ^ 292 := by
  have hgreatest :
      (shortest .toEven (2 * hiddenBit - 1) 971).value = 17976931348623157 * 10 ^ 292 := by
    rw [shortest_greatest]
    rfl
  have hmax := mem_shortest canonical_greatest (by decide) .toEven
  rw [hgreatest] at hmax
  have hcases : (m = 2 * hiddenBit - 1 ∧ q = 971) ∨ q < 971 ∨ q = 971 ∧ m < 2 * hiddenBit - 1 := by
    have := h.lt
    omega
  rcases hcases with ⟨rfl, rfl⟩ | hlt
  · exact hgreatest.le
  · exact (lt_of_mem h canonical_greatest hlt (mem_shortest h hm .toEven) hmax).le

/-- At the upper edge of the doubles, products with the most digits are still in range. -/
theorem floatOf?_edge : (floatOf? (10 ^ 17) (291 : ℕ)).isSome ∧
    ∀ i < 17, (floatOf? (17976931348623157 / Nat.pow 10 i) (292 + i : ℕ)).isSome := by
  decide +kernel

theorem floatOf?_zero : ∃ y, floatOf? 0 (-1) = some y ∧ ofFloat y = .finite false 0 (-1074) := by
  obtain ⟨n, r, hp, hn, -⟩ := exists_powerOfTen (show 1 ≤ 308 by decide)
  exact ⟨_, floatOf?_neg 0 one_pos, ofFloat_zero_div (q := -1074) rfl hp hn⟩

/-- **The text of a double is not out of the reader's range.** -/
theorem exists_floatOf?_scannedDigits (h : Canonical m q) (hq : q ≤ 971) :
    ∃ y, floatOf? (scannedDigits m q).digits (scannedDigits m q).exponent = some y ∧
      ∃ n r, ofFloat y = .finite false n r := by
  rcases Nat.eq_zero_or_pos m with rfl | hm
  · obtain ⟨y, hy, hzero⟩ := floatOf?_zero
    exact ⟨y, hy, 0, -1074, hzero⟩
  obtain ⟨hpos, hle, -, hexponent⟩ := scannedDigits_bounds h hm hq
  have hvalue := (scannedDigits_value hm).trans_le (shortest_value_le h hm hq)
  generalize scannedDigits m q = d at *
  obtain ⟨s, e⟩ := d
  dsimp only at *
  have hfits : 10 ^ 17 ≤ maxSignificand := by decide
  rcases Int.eq_nat_or_neg e with ⟨k, rfl | rfl⟩
  · by_cases hsmall : k ≤ 291
    · exact exists_floatOf?_of_le hpos hle hfits hsmall (by decide) floatOf?_edge.1
    · obtain ⟨i, rfl⟩ : ∃ i, k = 292 + i := ⟨k - 292, by omega⟩
      have hi : i < 17 := by omega
      refine exists_floatOf?_of_le hpos ?_ ?_ le_rfl (by omega) (floatOf?_edge.2 i hi)
      · rw [Nat.pow_eq, Nat.le_div_iff_mul_le (Nat.pow_pos (by decide))]
        have hscaled : (s : ℚ) * 10 ^ i * 10 ^ 292 ≤ 17976931348623157 * 10 ^ 292 := by
          rw [mul_assoc, ← pow_add, Nat.add_comm i, ← zpow_natCast]
          exact hvalue
        exact_mod_cast le_of_mul_le_mul_right hscaled (pow_pos (by norm_num) 292)
      · exact (Nat.div_le_self _ _).trans (by decide)
  · rcases Nat.eq_zero_or_pos k with rfl | hk
    · exact exists_floatOf?_of_le hpos hle hfits (Nat.zero_le _) (by decide) floatOf?_edge.1
    · exact exists_floatOf?_neg hpos (hle.trans hfits) hk

/-- **Digits that are a double themselves, times a power of ten that is one,** are read as the
double in whose interval their number lies. -/
theorem floatOf?_of_exact (h : Canonical m q) (hq : q ≤ 971) {d : Digits} (hd : 0 < d.digits)
    (hdigits : (ofFloat d.digits.toUInt64.toFloat).integer? = some (d.digits : ℤ))
    (hexponent : d.exponent.natAbs < 23) (hmem : (around m q).Mem d.value) :
    ∃ y, floatOf? d.digits d.exponent = some y ∧ ofFloat y = .finite false m q := by
  have hrounds : Rounds d.value (.finite false m q) := ⟨m, q, h, hmem, by rw [if_pos hq]⟩
  obtain ⟨s, e⟩ := d
  dsimp only [Digits.value] at *
  obtain ⟨m', q', hx, hm', hs⟩ := ofFloat_of_integer? hdigits hd
  obtain ⟨k, hk⟩ := Int.eq_nat_or_neg e
  have hsmall : k < 23 := by omega
  obtain ⟨n, r, hp, hn, hpower⟩ := ofFloat_of_integer? (n := 10 ^ k)
    (by exact_mod_cast integer?_powerOfTen k hsmall) (Nat.pow_pos (by decide))
  push_cast at hpower
  by_cases hnonneg : 0 ≤ e
  · obtain rfl : e = k := by omega
    have hy := rounds_mul hx hp hm' hn
    rw [hs, hpower, ← zpow_natCast] at hy
    have hy := hy.eq hrounds
    refine ⟨_, ?_, hy⟩
    rw [floatOf?_natCast s (by omega), isInf_eq_false hy]
    rfl
  · obtain rfl : e = -k := by omega
    have hy := rounds_div hx hp hm' hn
    rw [hs, hpower, ← zpow_natCast, div_eq_mul_inv, ← zpow_neg] at hy
    refine ⟨_, ?_, hy.eq hrounds⟩
    rw [floatOf?_neg s (by omega), show (k - 1) / 308 = 0 by omega]
    rfl

end MarkupTree.Json

import MarkupTree.Proofs.Decimal.Binary64
import MarkupTree.Proofs.Decimal.Interval
import Mathlib.Tactic.FieldSimp
import Mathlib.Tactic.Positivity

/-!
# Rounding a mantissa

A mantissa with its two residual bits says enough of an exact result (`Describes`), and goes on to
say it when bits are shifted out (`Describes.shiftRight`). What it is rounded to is the nearest
whole number (`Describes.isNearest`). So the exact result lies in the interval around the double
that is made of it (`roundWithAccuracy_spec`).
-/

namespace MarkupTree.Decimal.Binary64

open Float.Model
open Float.Model.UnpackedFloat hiding unpack
open MarkupTree.Decimal.Interval

/-! ## Residual bits -/

/-- What a mantissa with its residual bits says of a fraction: the whole part of twice the fraction
is the mantissa with the round bit, and there is more than that just if the sticky bit is set. -/
structure Describes (em : ExtendedMantissa) (w : ℚ) : Prop where
  le : ((2 * em.mantissa + em.roundBit.toNat : ℕ) : ℚ) ≤ 2 * w
  lt : 2 * w < (2 * em.mantissa + em.roundBit.toNat : ℕ) + 1
  sticky : em.stickyBit = true ↔ 2 * w ≠ (2 * em.mantissa + em.roundBit.toNat : ℕ)

theorem describes_exact (m : ℕ) : Describes (.ofMantissaAndAccuracy m .exact) m :=
  ⟨by simp [ExtendedMantissa.ofMantissaAndAccuracy],
    by simp [ExtendedMantissa.ofMantissaAndAccuracy],
    by simp [ExtendedMantissa.ofMantissaAndAccuracy]⟩

theorem describes_inexact {m : ℕ} {w : ℚ} {o : Ordering} (hlow : m < w) (hhigh : w < m + 1)
    (ho : o = .lt ∧ 2 * w < 2 * m + 1 ∨ o = .eq ∧ 2 * w = 2 * m + 1 ∨ o = .gt ∧ 2 * m + 1 < 2 * w) :
    Describes (.ofMantissaAndAccuracy m (.inexact o)) w := by
  rcases ho with ⟨rfl, ho⟩ | ⟨rfl, ho⟩ | ⟨rfl, ho⟩ <;> constructor <;>
    simp [ExtendedMantissa.ofMantissaAndAccuracy] <;> linarith

/-- The remainder of a division says how the quotient goes on. -/
theorem describes_fraction (m : ℕ) {num den : ℕ} (h : num < den) :
    Describes (.ofMantissaAndAccuracy m (accuracyOfFraction num den)) (m + num / den) := by
  have hden : (0 : ℚ) < den := Nat.cast_pos.2 (Nat.zero_lt_of_lt h)
  unfold accuracyOfFraction
  split
  · rename_i hzero
    subst hzero
    simpa using describes_exact m
  · rename_i hzero
    have hpos : (0 : ℚ) < num / den := div_pos (Nat.cast_pos.2 (Nat.pos_of_ne_zero hzero)) hden
    have hlt : (num : ℚ) / den < 1 := (div_lt_one hden).2 (Nat.cast_lt.2 h)
    have htwice : 2 * ((m : ℚ) + num / den) = 2 * m + (2 * num : ℕ) / den := by
      push_cast
      ring
    refine describes_inexact (by linarith) (by linarith) ?_
    rw [htwice]
    rcases lt_trichotomy (2 * num) den with hhalf | hhalf | hhalf
    · have := (div_lt_one hden).2 (Nat.cast_lt.2 hhalf)
      exact .inl ⟨Nat.compare_eq_lt.2 hhalf, by linarith⟩
    · have := (div_eq_one_iff_eq hden.ne').2 (congrArg Nat.cast hhalf)
      exact .inr (.inl ⟨Nat.compare_eq_eq.2 hhalf, by linarith⟩)
    · have := (one_lt_div hden).2 (Nat.cast_lt.2 hhalf)
      exact .inr (.inr ⟨Nat.compare_eq_gt.2 hhalf, by linarith⟩)

/-- A bit that is shifted out becomes the round bit, and the round bit goes into the sticky bit. -/
theorem Describes.shiftRightOne {em : ExtendedMantissa} {w : ℚ} (h : Describes em w) :
    Describes em.shiftRightOne (w / 2) := by
  obtain ⟨hle, hlt, hsticky⟩ := h
  have hbit : 2 * em.shiftRightOne.mantissa + em.shiftRightOne.roundBit.toNat = em.mantissa := by
    show 2 * (em.mantissa / 2) + (em.mantissa % 2 != 0).toNat = em.mantissa
    rcases Nat.mod_two_eq_zero_or_one em.mantissa with hm | hm <;> rw [hm] <;> simp <;> omega
  have htwice : 2 * (w / 2) = w := by ring
  refine ⟨?_, ?_, ?_⟩ <;> rw [hbit, htwice]
  · push_cast at hle
    have : (0 : ℚ) ≤ em.roundBit.toNat := Nat.cast_nonneg _
    linarith
  · push_cast at hlt
    have : (em.roundBit.toNat : ℚ) ≤ 1 := by exact_mod_cast Bool.toNat_le em.roundBit
    linarith
  · show (em.roundBit || em.stickyBit) = true ↔ _
    rw [Bool.or_eq_true, hsticky]
    cases hround : em.roundBit with
    | false =>
      simp only [Bool.false_eq_true, false_or, Bool.toNat_false, Nat.add_zero]
      push_cast
      rw [ne_eq, mul_right_inj' two_ne_zero]
    | true =>
      rw [hround] at hle
      push_cast at hle
      simp only [true_or, true_iff]
      intro heq
      rw [heq] at hle
      simp at hle
      linarith

theorem Describes.shiftRight {em : ExtendedMantissa} {w : ℚ} (h : Describes em w) (n : ℕ) :
    Describes (em >>> n) (w / 2 ^ n) := by
  change Describes (n.repeat ExtendedMantissa.shiftRightOne em) _
  induction n with
  | zero => simpa [Nat.repeat] using h
  | succ n ih =>
    rw [Nat.repeat, pow_succ, ← div_div]
    exact ih.shiftRightOne

theorem shiftRight_mantissa (em : ExtendedMantissa) (n : ℕ) :
    (em >>> n).mantissa = em.mantissa / 2 ^ n := by
  change (n.repeat ExtendedMantissa.shiftRightOne em).mantissa = _
  induction n with
  | zero => simp [Nat.repeat]
  | succ n ih =>
    rw [Nat.repeat, pow_succ, ← Nat.div_div_eq_div_mul, ← ih]
    rfl

theorem Describes.mantissa_le {em : ExtendedMantissa} {w : ℚ} (h : Describes em w) :
    em.mantissa ≤ w := by
  have hle := h.le
  have : (0 : ℚ) ≤ em.roundBit.toNat := Nat.cast_nonneg _
  push_cast at hle
  linarith

/-- The number is the nearest whole one to the fraction, an even one if there are two. -/
structure IsNearest (n : ℕ) (w : ℚ) : Prop where
  low : (2 * n : ℚ) ≤ 2 * w + 1
  high : 2 * w ≤ 2 * n + 1
  odd : n % 2 = 1 → (2 * n : ℚ) < 2 * w + 1 ∧ 2 * w < 2 * n + 1

theorem Describes.isNearest {em : ExtendedMantissa} {w : ℚ} (h : Describes em w) :
    IsNearest em.roundedMantissa w := by
  obtain ⟨hle, hlt, hsticky⟩ := h
  rcases em with ⟨m, _ | _, _ | _⟩
  · have hw : 2 * w = 2 * m := by simpa using hsticky
    show IsNearest m w
    exact ⟨by linarith, by linarith, fun _ => ⟨by linarith, by linarith⟩⟩
  · have hlow : (2 * m : ℚ) ≤ 2 * w := by simpa using hle
    have hhigh : 2 * w < 2 * m + 1 := by simpa using hlt
    show IsNearest m w
    exact ⟨by linarith, by linarith, fun _ => ⟨by linarith, hhigh⟩⟩
  · -- The fraction lies in the middle, and the last bit decides.
    have hw : 2 * w = 2 * m + 1 := by simpa using hsticky
    have hbit : ((m % 2 : ℕ) : ℚ) ≤ 1 := by exact_mod_cast Nat.le_of_lt_succ (Nat.mod_lt m two_pos)
    have hnonneg : (0 : ℚ) ≤ (m % 2 : ℕ) := Nat.cast_nonneg _
    show IsNearest (m + m % 2) w
    constructor
    · push_cast
      linarith
    · push_cast
      linarith
    · omega
  · have hlow : (2 * m + 1 : ℚ) < 2 * w := by
      refine lt_of_le_of_ne (by simpa using hle) (Ne.symm ?_)
      simpa using hsticky
    have hhigh : 2 * w < 2 * m + 1 + 1 := by simpa using hlt
    show IsNearest (m + 1) w
    constructor <;> push_cast
    · linarith
    · linarith
    · exact fun _ => ⟨by linarith, by linarith⟩

theorem roundedMantissa_bounds (em : ExtendedMantissa) :
    em.mantissa ≤ em.roundedMantissa ∧ em.roundedMantissa ≤ em.mantissa + 1 := by
  rcases em with ⟨m, _ | _, _ | _⟩
  · exact ⟨le_rfl, Nat.le_succ m⟩
  · exact ⟨le_rfl, Nat.le_succ m⟩
  · show m ≤ m + m % 2 ∧ m + m % 2 ≤ m + 1
    omega
  · exact ⟨Nat.le_succ m, le_rfl⟩

/-! ## Rounding -/

theorem targetExponent_eq (m : ℕ) (e : ℤ) : Format.binary64.targetExponent (totalExponent m e) =
    max ((m.log2 : ℤ) + e - 52) (-1074) := by
  show max ((m.log2 : ℤ) + 1 + e - (53 : ℕ)) (3 - 2 ^ 10 - (53 : ℕ)) = _
  norm_num
  omega

/-- Bits are shifted out until the exponent is that of the format. -/
theorem shiftToTargetExponent_eq {m : ℕ} {e : ℤ} (acc : Accuracy) {t : ℤ}
    (ht : Format.binary64.targetExponent (totalExponent m e) = t) (hle : e ≤ t) :
    shiftToTargetExponent .binary64 m e acc =
      (ExtendedMantissa.ofMantissaAndAccuracy m acc >>> (t - e).toNat, t) := by
  unfold shiftToTargetExponent
  rw [ht]
  unfold shiftToExponent
  dsimp only
  rw [show e + ((t - e).toNat : ℤ) = t by omega]

theorem shiftToTargetExponent_of_lt {m : ℕ} {e : ℤ} (hm : m < 2 * hiddenBit) (he : -1074 ≤ e) :
    shiftToTargetExponent .binary64 m e .exact = (.ofMantissaAndAccuracy m .exact, e) := by
  have hlog : m.log2 ≤ 52 := by
    rcases Nat.eq_zero_or_pos m with rfl | hpos
    · decide
    · exact Nat.le_of_lt_succ ((Nat.log2_lt hpos.ne').2 hm)
  have ht := targetExponent_eq m e
  unfold shiftToTargetExponent shiftToExponent
  rw [ht]
  have hnone : (max ((m.log2 : ℤ) + e - 52) (-1074) - e).toNat = 0 := by omega
  dsimp only
  rw [hnone, Int.natCast_zero, Int.add_zero]
  rfl

/-- A mantissa with one bit more loses the last one, which is zero. -/
theorem shiftToTargetExponent_carry {e : ℤ} (he : -1074 ≤ e) :
    (shiftToTargetExponent .binary64 (2 * hiddenBit) e .exact).1.mantissa = hiddenBit ∧
      (shiftToTargetExponent .binary64 (2 * hiddenBit) e .exact).2 = e + 1 := by
  have ht : Format.binary64.targetExponent (totalExponent (2 * hiddenBit) e) = e + 1 := by
    have hlog : (2 * hiddenBit).log2 = 53 := by decide +kernel
    rw [targetExponent_eq, hlog]
    omega
  rw [shiftToTargetExponent_eq .exact ht (by omega)]
  refine ⟨?_, rfl⟩
  rw [shiftRight_mantissa, show (e + 1 - e).toNat = 1 by omega]
  rfl

/-- A fraction lies in the interval around the nearest whole number of last places. -/
theorem IsNearest.mem_around {n : ℕ} {w : ℚ} (h : IsNearest n w) (q : ℤ) (hpos : 0 ≤ w)
    (hhidden : n = hiddenBit ∧ -1074 < q → n ≤ w) : (around n q).Mem (w * 2 ^ q) := by
  obtain ⟨hlow, hhigh, hodd⟩ := h
  rw [mem_around_mul]
  have hends : (around n q).low = 4 * n - 1 ∧ (n = hiddenBit ∧ -1074 < q) ∨
      (around n q).low = 4 * n - 2 := by
    dsimp only [around]
    split
    · exact .inl ⟨rfl, ‹_›⟩
    · exact .inr rfl
  rcases hends with ⟨hquarter, hn⟩ | hhalf
  · have := hhidden hn
    have hle : ((around n q).low : ℚ) ≤ 4 * n := by
      rw [hquarter]
      exact_mod_cast Nat.sub_le (4 * n) 1
    rw [if_pos (by rw [hn.1]; rfl)]
    exact ⟨by linarith, by linarith⟩
  · rw [hhalf]
    rcases Nat.eq_zero_or_pos n with rfl | hn
    · rw [if_pos rfl]
      norm_num at hhigh ⊢
      exact ⟨hpos, by linarith⟩
    · have hcast : ((4 * n - 2 : ℕ) : ℚ) = 4 * n - 2 := by
        rw [Nat.cast_sub (by omega)]
        push_cast
        ring
      rw [hcast]
      split
      · exact ⟨by linarith, by linarith⟩
      · obtain ⟨hlt, hlt'⟩ := hodd (by omega)
        exact ⟨by linarith, by linarith⟩

/-- Above the greatest mantissa it lies in the interval around the least one with the next exponent.
-/
theorem IsNearest.mem_around_carry {w : ℚ} (h : IsNearest (2 * hiddenBit) w) {t : ℤ}
    (ht : -1074 ≤ t) : (around hiddenBit (t + 1)).Mem (w * 2 ^ t) := by
  have hlow : (around hiddenBit (t + 1)).low = 4 * hiddenBit - 1 := by
    dsimp only [around]
    rw [if_pos ⟨rfl, by omega⟩]
  have hhalf : w * 2 ^ t = w / 2 * 2 ^ (t + 1) := by
    rw [zpow_add_one₀ two_ne_zero]
    ring
  obtain ⟨hnlow, hnhigh, -⟩ := h
  rw [hhalf, mem_around_mul, if_pos (by rfl), hlow]
  unfold hiddenBit at hnlow hnhigh ⊢
  norm_num at hnlow hnhigh ⊢
  exact ⟨by linarith, by linarith⟩

section Shift

variable {m k : ℕ} {e : ℤ}

theorem exists_shift (hbits : hiddenBit ≤ m ∨ e ≤ -1074) :
    ∃ k : ℕ, max ((m.log2 : ℤ) + e - 52) (-1074) = e + k := by
  have hle : e ≤ max ((m.log2 : ℤ) + e - 52) (-1074) := by
    rcases hbits with h | h
    · have hlog : 52 ≤ m.log2 :=
        (Nat.le_log2 (Nat.ne_of_gt (Nat.lt_of_lt_of_le (by decide) h))).2 h
      omega
    · omega
  exact (Int.le.dest hle).imp fun _ h => h.symm

variable (hk : max ((m.log2 : ℤ) + e - 52) (-1074) = e + k)

include hk

/-- What is left of the mantissa has no more bits than the format has. -/
theorem shifted_lt : m / 2 ^ k < 2 * hiddenBit := by
  rw [Nat.div_lt_iff_lt_mul (Nat.two_pow_pos k), show 2 * hiddenBit = 2 ^ 53 by rfl, ← pow_add]
  exact Nat.lt_log2_self.trans_le (Nat.pow_le_pow_right two_pos (by omega))

/-- It has all of them, unless the exponent is the least one. -/
theorem hiddenBit_le_shifted (hbits : hiddenBit ≤ m ∨ e ≤ -1074) (hmin : -1074 < e + k) :
    hiddenBit ≤ m / 2 ^ k := by
  have hm : m ≠ 0 := by
    rintro rfl
    rw [Nat.log2_zero] at hk
    rcases hbits with h | h
    · exact absurd h (by decide)
    · omega
  rw [Nat.le_div_iff_mul_le (Nat.two_pow_pos k), show hiddenBit = 2 ^ 52 by rfl, ← pow_add]
  exact (Nat.pow_le_pow_right two_pos (by omega)).trans (Nat.log2_self_le hm)

end Shift

/-- A number by its parts, where a mantissa of zero makes a zero. -/
def ofParts (s : Sign) (n : ℕ) (t : ℤ) : UnpackedFloat :=
  if h : n = 0 then .zero s else .finite s n t (Nat.pos_of_ne_zero h)

/-- What is made of a rounded mantissa: rounding may have carried into one bit more. -/
def afterCarry (s : Sign) (n : ℕ) (t : ℤ) : UnpackedFloat :=
  let last := shiftToTargetExponent .binary64 n t .exact
  ofParts s last.1.mantissa last.2

theorem roundWithAccuracy_eq (s : Sign) {m k : ℕ} {e : ℤ} (acc : Accuracy)
    (hk : max ((m.log2 : ℤ) + e - 52) (-1074) = e + k) :
    roundWithAccuracy .binary64 s m e acc =
      afterCarry s (ExtendedMantissa.ofMantissaAndAccuracy m acc >>> k).roundedMantissa (e + k) := by
  have hfirst := shiftToTargetExponent_eq acc ((targetExponent_eq m e).trans hk) (by omega)
  rw [show (e + k - e).toNat = k by omega] at hfirst
  unfold roundWithAccuracy
  rw [hfirst]
  rfl

theorem ofUnpacked_afterCarry (s : Sign) {n : ℕ} {t : ℤ} (hc : Canonical n t) :
    ofUnpacked (afterCarry s n t) = .finite (isNegative s) n t := by
  rw [afterCarry, shiftToTargetExponent_of_lt hc.lt hc.le]
  show ofUnpacked (ofParts s n t) = _
  by_cases hzero : n = 0
  · have hleast : t = -1074 := by
      by_contra hne
      have := hc.hidden (lt_of_le_of_ne hc.le (Ne.symm hne))
      unfold hiddenBit at this
      omega
    subst hzero hleast
    rfl
  · rw [ofParts, dif_neg hzero]
    rfl

theorem ofUnpacked_afterCarry_top (s : Sign) {t : ℤ} (ht : -1074 ≤ t) :
    ofUnpacked (afterCarry s (2 * hiddenBit) t) = .finite (isNegative s) hiddenBit (t + 1) := by
  obtain ⟨hmantissa, hexponent⟩ := shiftToTargetExponent_carry ht
  rw [afterCarry, hmantissa, hexponent]
  rfl

/-- **What is rounded becomes the double in whose interval it lies**, if no bits have been lost
before. The exponent may be too great for the format. -/
theorem roundWithAccuracy_spec (s : Sign) {m : ℕ} {e : ℤ} {acc : Accuracy} {w : ℚ}
    (hw : Describes (.ofMantissaAndAccuracy m acc) w) (hbits : hiddenBit ≤ m ∨ e ≤ -1074) :
    ∃ n q, Canonical n q ∧ (around n q).Mem (w * 2 ^ e) ∧
      ofUnpacked (roundWithAccuracy .binary64 s m e acc) = .finite (isNegative s) n q := by
  obtain ⟨k, hk⟩ := exists_shift hbits
  have hmin : -1074 ≤ e + k := hk ▸ le_max_right _ _
  have hvalue : w * 2 ^ e = w / 2 ^ k * 2 ^ (e + k) := by
    rw [zpow_add₀ two_ne_zero, zpow_natCast]
    field_simp
  have hshifted := hw.shiftRight k
  have hmantissa : (ExtendedMantissa.ofMantissaAndAccuracy m acc >>> k).mantissa = m / 2 ^ k := by
    rw [shiftRight_mantissa]
    rcases acc with _ | _ | _ | _ <;> rfl
  have hlt := shifted_lt hk
  have hhidden := hiddenBit_le_shifted hk hbits
  rw [roundWithAccuracy_eq s acc hk, hvalue]
  rw [← hmantissa] at hlt hhidden
  generalize ExtendedMantissa.ofMantissaAndAccuracy m acc >>> k = em at *
  have hnearest := hshifted.isNearest
  have hwm := hshifted.mantissa_le
  have hpos := le_trans (Nat.cast_nonneg _) hwm
  obtain ⟨hround, hround'⟩ := roundedMantissa_bounds em
  generalize em.roundedMantissa = n at *
  rcases Nat.lt_or_ge n (2 * hiddenBit) with hn | hn
  · have hc : Canonical n (e + k) := ⟨hn, hmin, fun h => (hhidden h).trans hround⟩
    refine ⟨n, e + k, hc, hnearest.mem_around _ hpos fun ⟨hn, hlarge⟩ => ?_,
      ofUnpacked_afterCarry s hc⟩
    have := hhidden hlarge
    rwa [show em.mantissa = n by omega] at hwm
  · obtain rfl : n = 2 * hiddenBit := by omega
    exact ⟨hiddenBit, e + k + 1, ⟨by decide, by omega, fun _ => le_rfl⟩,
      hnearest.mem_around_carry hmin, ofUnpacked_afterCarry_top s hmin⟩

end MarkupTree.Decimal.Binary64

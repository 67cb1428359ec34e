import MarkupTree.Proofs.Decimal.Rounding

/-!
# Arithmetic rounds to the nearest double

A product, a quotient and a converted integer is the double in whose interval the exact result lies
(`Rounds`, `rounds_mul`, `rounds_div`, `rounds_toFloat`), which is only one (`Rounds.eq`). What has
been rounded is packed into bits, and nothing is lost by that, but that an exponent may be too great
(`ofFloat_pack`).
-/

namespace MarkupTree.Decimal.Binary64

open Float.Model
open Float.Model.UnpackedFloat hiding unpack
open MarkupTree.Decimal.Interval

/-! ## Packing -/

theorem ofBitVec_unpackSign_packComponents (s : Sign) (e : BitVec 11) (m : BitVec 52) :
    Sign.ofBitVec (unpackSign (packComponents .binary64 s e m)) = s := by
  have hsign : unpackSign (packComponents .binary64 s e m) = s.toBitVec := by
    apply BitVec.eq_of_getLsbD_eq
    intro i hi
    obtain rfl : i = 0 := by omega
    have hlast : (s.toBitVec ++ e ++ m).getLsbD 63 = s.toBitVec.getLsbD 0 := by
      rw [BitVec.getLsbD_append, if_neg (by decide), BitVec.getLsbD_append, if_neg (by decide)]
    rw [← hlast]
    show (BitVec.extractLsb 63 63 (s.toBitVec ++ e ++ m)).getLsbD 0 = _
    rw [BitVec.getLsbD_extractLsb]
    rfl
  rw [hsign]
  cases s <;> rfl

theorem ofBits_packComponents (s : Sign) (e : BitVec 11) (m : BitVec 52) :
    ofBits (UInt64.ofBitVec (packComponents .binary64 s e m)) =
      if e.toNat = 2047 then if m.toNat = 0 then .infinity (isNegative s) else .nan
      else if e.toNat = 0 then .finite (isNegative s) m.toNat (-1074)
      else .finite (isNegative s) (hiddenBit + m.toNat) ((e.toNat : ℤ) - 1075) := by
  unfold ofBits
  rw [← toNat_unpackMantissa, ← toNat_unpackExponent, ← isNegative_unpackSign]
  simp only [unpackMantissa_packComponents, unpackExponent_packComponents,
    ofBitVec_unpackSign_packComponents]

/-- Packing a number loses nothing, but that an exponent may be too great. -/
theorem ofFloat_pack {u : UnpackedFloat} {negative : Bool} {m : ℕ} {q : ℤ}
    (hu : ofUnpacked u = .finite negative m q) (h : Canonical m q) :
    ofFloat (.ofModel (.pack u)) =
      if q ≤ 971 then .finite negative m q else .infinity negative := by
  obtain ⟨hlt, hle, hhidden⟩ := h
  cases u with
  | notANumber => cases hu
  | infinity s => cases hu
  | zero s =>
    cases hu
    exact ofBits_packComponents s 0 0
  | finite s m e hm =>
    cases hu
    show ofBits (UInt64.ofBitVec (if 2048 ≤ (q + 1023 + 52).toNat + 1 then
        packComponents .binary64 s (-1#11) 0
      else if m.log2 + 1 = 53 then
        packComponents .binary64 s (BitVec.ofNat 11 (q + 1023 + 52).toNat) (BitVec.ofNat 52 m)
      else packComponents .binary64 s 0#11 (BitVec.ofNat 52 m))) = _
    by_cases hlarge : q ≤ 971
    · rw [if_neg (by omega), if_pos hlarge]
      have hfield : (BitVec.ofNat 11 (q + 1023 + 52).toNat).toNat = (q + 1075).toNat := by
        rw [BitVec.toNat_ofNat, Nat.mod_eq_of_lt (by omega)]
        omega
      by_cases hfirst : hiddenBit ≤ m
      · have hlog : m.log2 = 52 := (Nat.log2_eq_iff hm.ne').2 ⟨hfirst, hlt⟩
        have hfraction : (BitVec.ofNat 52 m).toNat = m - hiddenBit := by
          rw [BitVec.toNat_ofNat]
          unfold hiddenBit at *
          omega
        rw [if_pos (by omega), ofBits_packComponents, hfield, hfraction, if_neg (by omega),
          if_neg (by omega), Nat.add_sub_cancel' hfirst]
        congr 1
        omega
      · -- A subnormal number has the least exponent, and its mantissa is all that is packed.
        have hlog : m.log2 < 52 := (Nat.log2_lt hm.ne').2 (Nat.lt_of_not_le hfirst)
        have hfraction : (BitVec.ofNat 52 m).toNat = m := by
          rw [BitVec.toNat_ofNat]
          exact Nat.mod_eq_of_lt (Nat.lt_of_not_le hfirst)
        have hleast : q = -1074 := by
          by_contra hne
          exact hfirst (hhidden (by omega))
        rw [if_neg (by omega), ofBits_packComponents, hfraction, hleast]
        rfl
    · rw [if_pos (by omega), if_neg hlarge]
      exact ofBits_packComponents s (-1#11) 0

/-! ## Operations -/

/-- The number is what a fraction is rounded to: the double in whose interval the fraction lies, or
infinity if there is none with such an exponent. -/
def Rounds (v : ℚ) (b : Binary64) : Prop :=
  ∃ m q, Canonical m q ∧ (around m q).Mem v ∧
    b = if q ≤ 971 then .finite false m q else .infinity false

/-- A fraction is rounded in one way only. -/
theorem Rounds.eq {v : ℚ} {b b' : Binary64} (h : Rounds v b) (h' : Rounds v b') : b = b' := by
  obtain ⟨m, q, hc, hv, rfl⟩ := h
  obtain ⟨m', q', hc', hv', rfl⟩ := h'
  obtain ⟨rfl, rfl⟩ := eq_of_mem hc hc' hv hv'
  rfl

variable {x y : Float} {negative : Bool} {m n : ℕ} {q r : ℤ}

theorem canonical_of_ofFloat (h : ofFloat x = .finite negative m q) : Canonical m q ∧ q ≤ 971 := by
  unfold ofFloat ofBits at h
  dsimp only at h
  generalize hfield : x.toBits.toNat / hiddenBit % 2048 = field at h
  have hfraction : x.toBits.toNat % hiddenBit < hiddenBit := Nat.mod_lt _ (by decide)
  generalize x.toBits.toNat % hiddenBit = fraction at h hfraction
  split_ifs at h
  · cases h
    exact ⟨⟨by omega, le_rfl, fun h => absurd h (lt_irrefl _)⟩, by decide⟩
  · cases h
    exact ⟨⟨by omega, by omega, fun _ => by omega⟩, by omega⟩

theorem rounds_self (h : ofFloat x = .finite false m q) : Rounds (m * 2 ^ q) (ofFloat x) := by
  obtain ⟨hc, hle⟩ := canonical_of_ofFloat h
  exact ⟨m, q, hc, mem_around_self m q, by rw [h, if_pos hle]⟩

theorem finite_of_ofUnpacked {u : UnpackedFloat} (h : ofUnpacked u = .finite negative m q) :
    (m = 0 ∧ ∃ s, isNegative s = negative ∧ u = .zero s) ∨
      ∃ s, isNegative s = negative ∧ ∃ hm, u = .finite s m q hm := by
  rcases u with s | _ | s | ⟨s, m', q', hm⟩
  · cases h
  · cases h
  · obtain ⟨hs, rfl, -⟩ := Binary64.finite.inj h
    exact .inl ⟨rfl, s, hs, rfl⟩
  · obtain ⟨hs, rfl, rfl⟩ := Binary64.finite.inj h
    exact .inr ⟨s, hs, hm, rfl⟩

/-- Doubles that stand for the same number are equal, as the zeros are. -/
theorem beq_of_ofFloat {negative' : Bool} (hx : ofFloat x = .finite negative m q)
    (hy : ofFloat y = .finite negative' m q) (hsign : negative = negative' ∨ m = 0) :
    (x == y) = true := by
  show (x.toModel.unpack.compare y.toModel.unpack == some .eq) = true
  rw [ofFloat_eq_ofUnpacked] at hx hy
  generalize x.toModel.unpack = u at *
  generalize y.toModel.unpack = w at *
  rcases finite_of_ofUnpacked hx with ⟨hm, s, -, rfl⟩ | ⟨s, hs, hm, rfl⟩
  · rcases finite_of_ofUnpacked hy with ⟨-, t, -, rfl⟩ | ⟨-, -, hpos, -⟩
    · rfl
    · omega
  · rcases finite_of_ofUnpacked hy with ⟨hzero, -⟩ | ⟨t, ht, -, rfl⟩
    · omega
    · obtain rfl : s = t := by
        have : isNegative s = isNegative t := by
          rw [hs, ht]
          exact hsign.resolve_right hm.ne'
        cases s <;> cases t <;> first | rfl | cases this
      have hsame : (compare q q).then (compare m m) = .eq := by simp
      cases s
      · show (some ((compare q q).then (compare m m)).swap == some .eq) = true
        rw [hsame]
        rfl
      · show (some ((compare q q).then (compare m m)) == some .eq) = true
        rw [hsame]
        rfl

theorem ofFloat_neg (h : ofFloat x = .finite negative m q) :
    ofFloat (-x) = .finite (!negative) m q := by
  obtain ⟨hc, hq⟩ := canonical_of_ofFloat h
  have hneg : ofUnpacked x.toModel.unpack.neg = .finite (!negative) m q := by
    rw [ofFloat_eq_ofUnpacked] at h
    rcases finite_of_ofUnpacked h with ⟨-, s, rfl, hu⟩ | ⟨s, rfl, hm, hu⟩
    · rw [hu] at h ⊢
      obtain ⟨-, rfl, rfl⟩ := Binary64.finite.inj h
      cases s <;> rfl
    · rw [hu]
      cases s <;> rfl
  have hpack := ofFloat_pack hneg hc
  rwa [if_pos hq] at hpack

theorem ofFloat_signed (h : ofFloat x = .finite false m q) :
    ofFloat (if negative then -x else x) = .finite negative m q := by
  cases negative with
  | false => exact h
  | true => exact ofFloat_neg h

/-- What is rounded and packed is the double that the exact result is rounded to. -/
theorem rounds_pack {acc : Accuracy} {w : ℚ} (hw : Describes (.ofMantissaAndAccuracy m acc) w)
    (hbits : hiddenBit ≤ m ∨ q ≤ -1074) : Rounds (w * 2 ^ q)
      (ofFloat (.ofModel (.pack (roundWithAccuracy .binary64 .positive m q acc)))) := by
  obtain ⟨n, r, hc, hv, hu⟩ := roundWithAccuracy_spec .positive hw hbits
  exact ⟨n, r, hc, hv, ofFloat_pack hu hc⟩

theorem unpack_of_ofFloat (h : ofFloat x = .finite false m q) (hm : 0 < m) :
    x.toModel.unpack = .finite .positive m q hm := by
  rw [ofFloat_eq_ofUnpacked] at h
  rcases finite_of_ofUnpacked h with ⟨hzero, -⟩ | ⟨s, hs, hpos, hu⟩
  · omega
  · cases s with
    | negative => cases hs
    | positive => exact hu

/-- A natural number is converted to the nearest double. -/
theorem rounds_toFloat {n : UInt64} (hn : 0 < n.toNat) : Rounds n.toNat (ofFloat n.toFloat) := by
  have hround : n.toFloat = .ofModel (.pack (UnpackedFloat.round .binary64 .positive n.toNat 0)) := by
    show Float.ofModel (.pack (UnpackedFloat.normalize .binary64 (n.toNat : ℤ) 0 .positive)) = _
    rw [UnpackedFloat.normalize, Int.compare_eq_gt.2 (by exact_mod_cast hn)]
    rfl
  rw [hround]
  unfold UnpackedFloat.round decreaseExponent
  dsimp only
  rw [targetExponent_eq]
  have hlog := Nat.log2_self_le hn.ne'
  generalize n.toNat = n at *
  generalize hk : (0 - max ((n.log2 : ℤ) + 0 - 52) (-1074)).toNat = k
  have hvalue : (n : ℚ) = ((n <<< k : ℕ) : ℚ) * 2 ^ (0 - (k : ℤ)) := by
    rw [Nat.shiftLeft_eq, zero_sub, zpow_neg, zpow_natCast]
    push_cast
    field_simp
  rw [hvalue]
  refine rounds_pack (describes_exact _) (.inl ?_)
  rw [Nat.shiftLeft_eq, show hiddenBit = 2 ^ 52 by rfl]
  calc 2 ^ 52 ≤ 2 ^ (n.log2 + k) := Nat.pow_le_pow_right two_pos (by omega)
    _ = 2 ^ n.log2 * 2 ^ k := pow_add 2 _ _
    _ ≤ n * 2 ^ k := Nat.mul_le_mul_right _ hlog

theorem exists_canonical_of_le (hn : 0 < n) (hle : n ≤ 2 * hiddenBit) :
    ∃ m q, Canonical m q ∧ q ≤ 971 ∧ (m : ℚ) * 2 ^ q = n := by
  rcases Nat.lt_or_eq_of_le hle with hlt | rfl
  · have hlog : n.log2 ≤ 52 := Nat.le_of_lt_succ ((Nat.log2_lt hn.ne').2 hlt)
    obtain ⟨k, hk⟩ : ∃ k, n.log2 + k = 52 := ⟨52 - n.log2, by omega⟩
    have hlow : hiddenBit ≤ n * 2 ^ k :=
      calc hiddenBit = 2 ^ n.log2 * 2 ^ k := by rw [← pow_add, hk]; rfl
        _ ≤ n * 2 ^ k := Nat.mul_le_mul_right _ (Nat.log2_self_le hn.ne')
    have hhigh : n * 2 ^ k < 2 * hiddenBit :=
      calc n * 2 ^ k < 2 ^ (n.log2 + 1) * 2 ^ k :=
            Nat.mul_lt_mul_of_pos_right Nat.lt_log2_self (Nat.pow_pos (by decide))
        _ = 2 * hiddenBit := by rw [← pow_add, show n.log2 + 1 + k = 53 by omega]; rfl
    refine ⟨n * 2 ^ k, -k, ⟨hhigh, by omega, fun _ => hlow⟩, by omega, ?_⟩
    rw [zpow_neg, zpow_natCast]
    push_cast
    field_simp
  · refine ⟨hiddenBit, 1, ⟨by decide, by decide, fun _ => le_rfl⟩, by decide, ?_⟩
    push_cast
    ring

theorem integer?_toFloat (hle : n ≤ 2 * hiddenBit) :
    (ofFloat n.toUInt64.toFloat).integer? = some (n : ℤ) := by
  rcases Nat.eq_zero_or_pos n with rfl | hn
  · have hzero : ofFloat (0 : ℕ).toUInt64.toFloat = .finite false 0 (-1074) := rfl
    rw [hzero, integer?_eq_some_iff, value?, signFactor]
    simp
  · have hnat : n.toUInt64.toNat = n :=
      UInt64.toNat_ofNat_of_lt (hle.trans_lt (by decide))
    obtain ⟨m, q, hc, hq, hvalue⟩ := exists_canonical_of_le hn hle
    have hrounds := rounds_toFloat (n := n.toUInt64) (by omega)
    have hself : Rounds n.toUInt64.toNat (.finite false m q) := by
      rw [hnat, ← hvalue]
      exact ⟨m, q, hc, mem_around_self m q, by rw [if_pos hq]⟩
    rw [hrounds.eq hself, integer?_eq_some_iff, value?, signFactor]
    simp [hvalue]

/-- A product of positive doubles is rounded once. -/
theorem rounds_mul (hx : ofFloat x = .finite false m q) (hy : ofFloat y = .finite false n r)
    (hm : 0 < m) (hn : 0 < n) : Rounds (m * 2 ^ q * (n * 2 ^ r)) (ofFloat (x * y)) := by
  have hxy : x * y =
      .ofModel (.pack (roundWithAccuracy .binary64 .positive (m * n) (q + r) .exact)) := by
    show Float.ofModel (.pack (UnpackedFloat.mul .binary64 x.toModel.unpack y.toModel.unpack)) = _
    rw [unpack_of_ofFloat hx hm, unpack_of_ofFloat hy hn]
    rfl
  have hvalue : (m * 2 ^ q * (n * 2 ^ r) : ℚ) = (m * n : ℕ) * 2 ^ (q + r) := by
    rw [zpow_add₀ two_ne_zero]
    push_cast
    ring
  rw [hxy, hvalue]
  refine rounds_pack (describes_exact _) ?_
  obtain ⟨⟨-, -, hq⟩, -⟩ := canonical_of_ofFloat hx
  obtain ⟨⟨-, -, hr⟩, -⟩ := canonical_of_ofFloat hy
  by_cases hlarge : -1074 < q
  · exact .inl ((hq hlarge).trans (Nat.le_mul_of_pos_right m hn))
  · by_cases hlarge' : -1074 < r
    · exact .inl ((hr hlarge').trans (Nat.le_mul_of_pos_left n hm))
    · exact .inr (by omega)

theorem rounds_div (hx : ofFloat x = .finite false m q) (hy : ofFloat y = .finite false n r)
    (hm : 0 < m) (hn : 0 < n) : Rounds (m * 2 ^ q / (n * 2 ^ r)) (ofFloat (x / y)) := by
  have hxy : x / y = .ofModel (.pack (roundWithAccuracy .binary64 .positive
      (divCore .binary64 m q n r).1 (divCore .binary64 m q n r).2.1
      (divCore .binary64 m q n r).2.2)) := by
    show Float.ofModel (.pack (UnpackedFloat.div .binary64 x.toModel.unpack y.toModel.unpack)) = _
    rw [unpack_of_ofFloat hx hm, unpack_of_ofFloat hy hn]
    rfl
  rw [hxy]
  unfold divCore
  dsimp only
  have htarget : Format.binary64.targetExponent (totalExponent m q - totalExponent n r) =
      max ((m.log2 : ℤ) + q - (n.log2 + r) - 53) (-1074) := by
    show max ((m.log2 : ℤ) + 1 + q - (n.log2 + 1 + r) - (53 : ℕ)) (3 - 2 ^ 10 - (53 : ℕ)) = _
    norm_num
    omega
  rw [htarget]
  generalize ht : min (q - r) (max ((m.log2 : ℤ) + q - (n.log2 + r) - 53) (-1074)) = t
  obtain ⟨k, hk⟩ : ∃ k : ℕ, q - r = t + k := ⟨(q - r - t).toNat, by omega⟩
  rw [show (q - r - t).toNat = k by omega]
  have hn' : (n : ℚ) ≠ 0 := Nat.cast_ne_zero.2 hn.ne'
  have hvalue : (m * 2 ^ q / (n * 2 ^ r) : ℚ) =
      ((m <<< k / n : ℕ) + (m <<< k % n : ℕ) / n) * 2 ^ t := by
    have hdiv : ((m <<< k : ℕ) : ℚ) = n * (m <<< k / n : ℕ) + (m <<< k % n : ℕ) := by
      exact_mod_cast (Nat.div_add_mod _ _).symm
    have hpow : (2 : ℚ) ^ q = 2 ^ k * 2 ^ t * 2 ^ r := by
      rw [← zpow_natCast, ← zpow_add₀ two_ne_zero, ← zpow_add₀ two_ne_zero]
      congr 1
      omega
    have hr := (two_zpow_pos r).ne'
    calc (m * 2 ^ q / (n * 2 ^ r) : ℚ) = (m <<< k : ℕ) / n * 2 ^ t := by
          rw [hpow, Nat.shiftLeft_eq]
          push_cast
          field_simp
      _ = ((m <<< k / n : ℕ) + (m <<< k % n : ℕ) / n) * 2 ^ t := by
          rw [hdiv, add_div, mul_div_cancel_left₀ _ hn']
  rw [hvalue]
  refine rounds_pack (describes_fraction _ (Nat.mod_lt _ hn)) ?_
  by_cases hlarge : -1074 < t
  · -- The dividend is shifted so far that the integer quotient has its first bit.
    left
    have hlog := Nat.log2_self_le hm.ne'
    have hlog' := Nat.lt_log2_self (n := n)
    rw [Nat.le_div_iff_mul_le hn, Nat.shiftLeft_eq, show hiddenBit = 2 ^ 52 by rfl]
    calc 2 ^ 52 * n ≤ 2 ^ 52 * 2 ^ (n.log2 + 1) := Nat.mul_le_mul_left _ hlog'.le
      _ = 2 ^ (52 + (n.log2 + 1)) := (pow_add 2 _ _).symm
      _ ≤ 2 ^ (m.log2 + k) := Nat.pow_le_pow_right two_pos (by omega)
      _ = 2 ^ m.log2 * 2 ^ k := pow_add 2 _ _
      _ ≤ m * 2 ^ k := Nat.mul_le_mul_right _ hlog
  · exact .inr (by omega)

end MarkupTree.Decimal.Binary64

import MarkupTree.Proofs.Decimal.Layout

/-!
# Reading the text of a double

What a reader gathers from the text of a double is not quite the decimal that was written: of a
whole number in plain form the zero behind the point belongs to the digits (`scannedDigits`), which
stand for the same number (`scannedDigits_value`). In plain form and with an exponent, the text is
read as the double for the digits that are gathered (`numberBody_magnitude`).
-/

namespace MarkupTree.Json

open Decimal

/-! ## Digits and exponents -/

theorem fractionPart_digits (negative : Bool) {n : ℕ} {fraction rest : List Char}
    (hdigit : ∀ c ∈ fraction, c.isDigit) (hne : fraction ≠ [])
    (hbound : Nat.ofDigitChars 10 fraction n ≤ maxSignificand)
    (hrest : startsWithDigit rest = false) : fractionPart negative n 0 (fraction ++ rest) =
      afterDigits negative (Nat.ofDigitChars 10 fraction n) (-fraction.length) rest := by
  have hlength : fraction.length ≠ 0 := mt List.length_eq_zero_iff.1 hne
  unfold fractionPart
  rw [gather_digits hdigit hrest n 0 hbound]
  simp [hrest, hlength]

theorem numberBody_point (negative : Bool) {whole fraction rest : List Char}
    (hdigit : ∀ c ∈ whole ++ fraction, c.isDigit)
    (hwhole : whole = ['0'] ∨ ∃ c cs, whole = c :: cs ∧ c ≠ '0') (hne : fraction ≠ [])
    (hbound : Nat.ofDigitChars 10 (whole ++ fraction) 0 ≤ maxSignificand)
    (hrest : startsWithDigit rest = false) :
    numberBody negative (whole ++ '.' :: (fraction ++ rest)) =
      afterDigits negative (Nat.ofDigitChars 10 (whole ++ fraction) 0) (-fraction.length) rest := by
  rw [Nat.ofDigitChars_append] at hbound ⊢
  have hdigits : Nat.ofDigitChars 10 whole 0 ≤ maxSignificand :=
    (le_ofDigitChars fraction _).trans hbound
  rw [numberBody_digits negative (fun c hc => hdigit c (List.mem_append_left _ hc)) hwhole hdigits rfl]
  exact fractionPart_digits negative (fun c hc => hdigit c (List.mem_append_right _ hc)) hne hbound
    hrest

theorem afterDigits_of_numberEnds (negative : Bool) (n : ℕ) (shift : ℤ) {rest : List Char}
    (h : NumberEnds rest) :
    afterDigits negative n shift rest = signedNumber negative (floatOf? n shift) rest := by
  unfold afterDigits
  split
  · exact absurd rfl (h _ rfl).2.2.1
  · exact absurd rfl (h _ rfl).2.2.2
  · rfl

theorem exponentPart_toDigits (negative : Bool) (n : ℕ) (shift : ℤ) {e : ℤ}
    (hbound : e.natAbs ≤ maxExponent) {rest : List Char} (h : NumberEnds rest) :
    exponentPart negative n shift
        ((if e < 0 then '-' else '+') :: (Nat.toDigits 10 e.natAbs ++ rest)) =
      signedNumber negative (floatOf? n (shift + e)) rest := by
  have hgather := gather_toDigits hbound h.startsWithDigit
  obtain ⟨c, ds, hds, hc⟩ := toDigits_eq_digit_cons e.natAbs
  rw [hds, List.cons_append] at hgather ⊢
  by_cases hneg : e < 0
  · have hexponent : shift + e = shift - (e.natAbs : ℤ) := by omega
    rw [if_pos hneg, hexponent]
    unfold exponentPart
    simp [hc, hgather, h.startsWithDigit]
  · have hexponent : shift + e = shift + (e.natAbs : ℤ) := by omega
    rw [if_neg hneg, hexponent]
    unfold exponentPart
    simp [hc, hgather, h.startsWithDigit]

/-! ## What is gathered -/

/-- The digits that are gathered from the text of `m · 2 ^ q`, and the exponent that belongs to
them. The zero behind the point of a whole number is one of them. -/
def scannedDigits (m : ℕ) (q : ℤ) : Digits :=
  if m = 0 then ⟨0, -1⟩
  else
    let d := shortest .toEven m q
    if 0 ≤ d.exponent ∧ floatLayout.isPlain ((Nat.toDigits 10 d.digits).length + d.exponent - 1) then
      ⟨d.digits * Nat.pow 10 (d.exponent.toNat + 1), -1⟩
    else d

variable {m : ℕ} {q : ℤ}

theorem scannedDigits_zero (q : ℤ) : scannedDigits 0 q = ⟨0, -1⟩ := if_pos rfl

/-- They stand for the decimal that was written. -/
theorem scannedDigits_value (hm : 0 < m) :
    (scannedDigits m q).value = (shortest .toEven m q).value := by
  unfold scannedDigits
  dsimp only
  rw [if_neg hm.ne']
  split
  · rename_i hplain
    obtain ⟨k, hk⟩ := Int.eq_ofNat_of_zero_le hplain.1
    rw [Digits.value, Digits.value, hk, Int.toNat_natCast, Nat.pow_eq, zpow_natCast, zpow_neg_one]
    push_cast
    ring
  · rfl

/-- A whole number in plain form has sixteen digits at most. -/
theorem mul_ten_pow_lt_of_isPlain {d : Digits} (h : 0 ≤ d.exponent)
    (hplain : floatLayout.isPlain ((Nat.toDigits 10 d.digits).length + d.exponent - 1) = true) :
    d.digits * 10 ^ d.exponent.toNat < 10 ^ 16 := by
  have hplace : ((Nat.toDigits 10 d.digits).length : ℤ) + d.exponent - 1 ≤ 15 := by
    have := (Bool.and_eq_true_iff.1 hplain).2
    exact of_decide_eq_true this
  have hlt : d.digits < 10 ^ (Nat.toDigits 10 d.digits).length :=
    (Nat.length_toDigits_le_iff (by decide) Nat.length_toDigits_pos).1 le_rfl
  calc d.digits * 10 ^ d.exponent.toNat
      < 10 ^ (Nat.toDigits 10 d.digits).length * 10 ^ d.exponent.toNat :=
        Nat.mul_lt_mul_of_pos_right hlt (Nat.pow_pos (by decide))
    _ = 10 ^ ((Nat.toDigits 10 d.digits).length + d.exponent.toNat) := (pow_add 10 _ _).symm
    _ ≤ 10 ^ 16 := Nat.pow_le_pow_right (by decide) (by omega)

/-- **A whole number in plain form** is read with the zero behind its point. -/
theorem numberBody_plain_of_nonneg (negative : Bool) {d : Digits} (hd : 0 < d.digits)
    (h : 0 ≤ d.exponent)
    (hplain : floatLayout.isPlain ((Nat.toDigits 10 d.digits).length + d.exponent - 1) = true)
    {rest : List Char} (hrest : NumberEnds rest) :
    numberBody negative (floatLayout.plain d ++ rest) =
      signedNumber negative (floatOf? (d.digits * 10 ^ (d.exponent.toNat + 1)) (-1)) rest := by
  have hbound := mul_ten_pow_lt_of_isPlain h hplain
  have hdigits : Nat.ofDigitChars 10 (Nat.toDigits 10 (d.digits * 10 ^ d.exponent.toNat) ++ ['0']) 0 =
      d.digits * 10 ^ (d.exponent.toNat + 1) := by
    rw [Nat.ofDigitChars_append, Nat.ofDigitChars_ten_toDigits, pow_succ, ← mul_assoc, mul_comm _ 10]
    rfl
  have hpos : 0 < d.digits * 10 ^ d.exponent.toNat := Nat.mul_pos hd (Nat.pow_pos (by decide))
  rw [floatLayout.plain_of_nonneg hd h, List.append_assoc]
  show numberBody negative (_ ++ '.' :: (['0'] ++ rest)) = _
  rw [numberBody_point negative _ (.inr (toDigits_eq_cons hpos)) (List.cons_ne_nil _ _) _
    hrest.startsWithDigit, hdigits, afterDigits_of_numberEnds negative _ _ hrest]
  · rfl
  · intro c hc
    rcases List.mem_append.1 hc with hc | hc
    · exact isDigit_toDigits _ c hc
    · rw [List.mem_singleton.1 hc]
      rfl
  · rw [hdigits, pow_succ, ← mul_assoc]
    unfold maxSignificand
    omega

/-- **A number with digits behind the point** is read as its digits. -/
theorem numberBody_plain_of_neg (negative : Bool) {d : Digits} (hd : 0 < d.digits)
    (hbound : d.digits ≤ maxSignificand) (h : d.exponent < 0) {rest : List Char}
    (hrest : NumberEnds rest) : numberBody negative (floatLayout.plain d ++ rest) =
      signedNumber negative (floatOf? d.digits d.exponent) rest := by
  obtain ⟨whole, fraction, htext, hdigit, hdigits, hlength, hwhole⟩ := floatLayout.plain_of_neg h
  have hfirst : whole = ['0'] ∨ ∃ c cs, whole = c :: cs ∧ c ≠ '0' := by
    rcases hwhole with hzero | ⟨hne, t, ht⟩
    · exact .inl hzero
    · obtain ⟨c, cs, rfl⟩ := List.exists_cons_of_ne_nil hne
      obtain ⟨c', ds, hds, hc⟩ := toDigits_eq_cons hd
      rw [hds] at ht
      obtain ⟨rfl, -⟩ := List.cons.inj ht
      exact .inr ⟨_, _, rfl, hc⟩
  have hne : fraction ≠ [] := by
    rintro rfl
    rw [List.length_nil] at hlength
    omega
  rw [htext, List.append_assoc, List.cons_append, numberBody_point negative hdigit hfirst hne
    (hdigits ▸ hbound) hrest.startsWithDigit, hdigits, afterDigits_of_numberEnds negative _ _ hrest,
    show -(fraction.length : ℤ) = d.exponent by omega]

/-- **A number with an exponent** is read as its digits. -/
theorem numberBody_scientific (negative : Bool) {d : Digits} (hd : 0 < d.digits)
    (hbound : d.digits ≤ 10 ^ 17) (hexponent : d.exponent.natAbs ≤ 400) {rest : List Char}
    (hrest : NumberEnds rest) : numberBody negative (Layout.scientific d ++ rest) =
      signedNumber negative (floatOf? d.digits d.exponent) rest := by
  have hfits : d.digits ≤ maxSignificand := hbound.trans (by decide)
  have hlength : (Nat.toDigits 10 d.digits).length ≤ 18 := by
    rw [Nat.length_toDigits_le_iff (by decide) (by decide)]
    omega
  have hdigit := isDigit_toDigits d.digits
  have hdigits := Nat.ofDigitChars_ten_toDigits (n := d.digits)
  obtain ⟨c, cs, hcs, hc⟩ := toDigits_eq_cons hd
  unfold Layout.scientific
  dsimp only
  rw [hcs] at hlength hdigit hdigits ⊢
  rw [List.length_cons] at hlength ⊢
  generalize he : ((cs.length + 1 : ℕ) : ℤ) + d.exponent - 1 = e
  have hsmall : e.natAbs ≤ maxExponent := by
    unfold maxExponent
    omega
  by_cases hcs0 : cs = []
  · subst hcs0
    show numberBody negative ([c] ++ 'e' :: ((if e < 0 then '-' else '+') ::
      (Nat.toDigits 10 e.natAbs ++ rest))) = _
    rw [numberBody_digits negative hdigit (.inr ⟨c, [], rfl, hc⟩) (hdigits.trans_le hfits) rfl,
      hdigits]
    show exponentPart negative d.digits 0 _ = _
    rw [exponentPart_toDigits negative _ _ hsmall hrest, show 0 + e = d.exponent by simp at he; omega]
  · have hlong : ¬cs.length + 1 ≤ 1 := by
      have := List.length_pos_of_ne_nil hcs0
      omega
    rw [if_neg hlong]
    have htext : List.take 1 (c :: cs) ++ '.' :: List.drop 1 (c :: cs) ++
        'e' :: (if e < 0 then '-' else '+') :: Nat.toDigits 10 e.natAbs ++ rest =
        [c] ++ '.' :: (cs ++ 'e' :: ((if e < 0 then '-' else '+') ::
          (Nat.toDigits 10 e.natAbs ++ rest))) := by
      simp
    rw [htext, numberBody_point negative hdigit (.inr ⟨c, [], rfl, hc⟩) hcs0 (hdigits.trans_le hfits)
      rfl]
    show exponentPart negative (Nat.ofDigitChars 10 (c :: cs) 0) (-cs.length) _ = _
    rw [exponentPart_toDigits negative _ _ hsmall hrest, hdigits,
      show -(cs.length : ℤ) + e = d.exponent by omega]

/-- **The text of a double is read as the double for the digits that are gathered from it.** -/
theorem numberBody_magnitude (negative : Bool) (h : Binary64.Canonical m q) (hq : q ≤ 971)
    {rest : List Char} (hrest : NumberEnds rest) :
    numberBody negative (floatLayout.magnitude m q ++ rest) = signedNumber negative
      (floatOf? (scannedDigits m q).digits (scannedDigits m q).exponent) rest := by
  unfold Layout.magnitude scannedDigits
  dsimp only
  rcases Nat.eq_zero_or_pos m with rfl | hm
  · rw [if_pos rfl, if_pos rfl]
    show numberBody negative (['0'] ++ '.' :: (['0'] ++ rest)) = _
    have hdigit : ∀ c ∈ ['0'] ++ ['0'], c.isDigit := by simp
    rw [numberBody_point negative hdigit (.inl rfl) (List.cons_ne_nil _ _) (Nat.zero_le _)
      hrest.startsWithDigit, afterDigits_of_numberEnds negative _ _ hrest]
    rfl
  rw [if_neg hm.ne', if_neg hm.ne']
  have hd := Interval.shortest_pos h hm .toEven
  have hle := Interval.shortest_digits_le q hm .toEven
  have hexponent := Interval.shortest_exponent_bounds h hm hq .toEven
  rw [show floatLayout.tie = .toEven by rfl]
  generalize shortest .toEven m q = d at *
  by_cases hplain : floatLayout.isPlain ((Nat.toDigits 10 d.digits).length + d.exponent - 1)
  · rw [if_pos hplain]
    by_cases hnonneg : 0 ≤ d.exponent
    · rw [if_pos ⟨hnonneg, hplain⟩]
      exact numberBody_plain_of_nonneg negative hd hnonneg hplain hrest
    · rw [if_neg (fun h => hnonneg h.1)]
      exact numberBody_plain_of_neg negative hd (hle.trans (by decide)) (by omega) hrest
  · rw [if_neg hplain, if_neg (fun h => hplain h.2)]
    exact numberBody_scientific negative hd hle (by omega) hrest

end MarkupTree.Json

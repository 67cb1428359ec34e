import MarkupTree.Proofs.Equality
import MarkupTree.Proofs.Decimal.Arithmetic
import MarkupTree.Proofs.Decimal.Shortest
import MarkupTree.Proofs.Json.NumberLiteral
import Mathlib.Data.List.TakeWhile

/-!
# What the text of a double says

Digits with a plain point stand for a number (`pointValue`). In plain form a decimal is written as
digits that stand for it (`Layout.plain_of_nonneg`, `Layout.plain_of_neg`). So the text of a double
in an attribute stands for a number in the interval around the double (`Scalar.floatText_spec`), and
doubles with the same text are equal, the zeros too (`Scalar.floatText_eq_iff`).
-/

namespace MarkupTree

namespace Decimal

open Json (isDigit_toDigits toDigits_eq_digit_cons)

/-! ## Digits -/

/-- The number that digits with a plain point stand for. -/
def pointValue (cs : List Char) : ℚ :=
  let fraction := (cs.dropWhile (· ≠ '.')).drop 1
  (Nat.ofDigitChars 10 (cs.takeWhile (· ≠ '.') ++ fraction) 0 : ℚ) / 10 ^ fraction.length

theorem ne_point_of_isDigit {c : Char} (h : c.isDigit) : c ≠ '.' := by
  rintro rfl
  exact absurd h (by decide)

theorem pointValue_digits {ds : List Char} (hds : ∀ c ∈ ds, c.isDigit) :
    pointValue ds = Nat.ofDigitChars 10 ds 0 := by
  have hpoint : ∀ c ∈ ds, decide (c ≠ '.') = true := fun c hc =>
    decide_eq_true (ne_point_of_isDigit (hds c hc))
  have hwhole : ds.takeWhile (fun c => decide (c ≠ '.')) = ds := List.takeWhile_eq_self_iff.2 hpoint
  have hrest : ds.dropWhile (fun c => decide (c ≠ '.')) = [] := List.dropWhile_eq_nil_iff.2 hpoint
  unfold pointValue
  rw [hwhole, hrest]
  simp

theorem pointValue_point {ds es : List Char} (hds : ∀ c ∈ ds, c.isDigit) :
    pointValue (ds ++ '.' :: es) = Nat.ofDigitChars 10 (ds ++ es) 0 / 10 ^ es.length := by
  have hpoint : ∀ c ∈ ds, decide (c ≠ '.') = true := fun c hc =>
    decide_eq_true (ne_point_of_isDigit (hds c hc))
  unfold pointValue
  rw [List.takeWhile_append_of_pos hpoint, List.dropWhile_append_of_pos hpoint]
  simp

theorem pointValue_toDigits (n : ℕ) : pointValue (Nat.toDigits 10 n) = n := by
  rw [pointValue_digits (isDigit_toDigits n), Nat.ofDigitChars_ten_toDigits]

theorem toDigits_mul_ten_pow {n : ℕ} (h : 0 < n) (k : ℕ) :
    Nat.toDigits 10 (n * 10 ^ k) = Nat.toDigits 10 n ++ List.replicate k '0' := by
  induction k with
  | zero => simp
  | succ k ih =>
    have hpos : 0 < n * 10 ^ k := Nat.mul_pos h (Nat.pow_pos (by decide))
    have hnext : n * 10 ^ (k + 1) = 10 * (n * 10 ^ k) + 0 := by
      rw [Nat.pow_succ]
      ring
    rw [hnext, ← Nat.toDigits_append_toDigits (by decide) hpos (by decide), ih,
      List.replicate_succ', List.append_assoc]
    rfl

/-! ## Plain form -/

namespace Layout

variable (layout : Layout) {d : Digits}

theorem plain_of_nonneg (hd : 0 < d.digits) (h : 0 ≤ d.exponent) :
    layout.plain d = Nat.toDigits 10 (d.digits * 10 ^ d.exponent.toNat) ++ layout.wholeMark := by
  unfold plain
  dsimp only
  rw [if_pos h, toDigits_mul_ten_pow hd]

/-- Another number is written with a point, behind which there are as many digits as the exponent
says. All the digits together are those of the decimal, perhaps after zeros. -/
theorem plain_of_neg (h : d.exponent < 0) : ∃ whole fraction,
    layout.plain d = whole ++ '.' :: fraction ∧ (∀ c ∈ whole ++ fraction, c.isDigit) ∧
      Nat.ofDigitChars 10 (whole ++ fraction) 0 = d.digits ∧ (fraction.length : ℤ) = -d.exponent ∧
      (whole = ['0'] ∨ whole ≠ [] ∧ whole <+: Nat.toDigits 10 d.digits) := by
  have hdigit := isDigit_toDigits d.digits
  have hdigits := Nat.ofDigitChars_ten_toDigits (n := d.digits)
  unfold plain
  dsimp only
  generalize Nat.toDigits 10 d.digits = ds at *
  rw [if_neg (by omega)]
  split
  · rename_i hpoint
    refine ⟨_, _, rfl, ?_, ?_, ?_, .inr ⟨?_, List.take_prefix _ _⟩⟩
    · rwa [List.take_append_drop]
    · rwa [List.take_append_drop]
    · rw [List.length_drop]
      omega
    · rw [ne_eq, List.take_eq_nil_iff, not_or, ← List.length_eq_zero_iff]
      omega
  · refine ⟨['0'], List.replicate (-(ds.length + d.exponent)).toNat '0' ++ ds, rfl, ?_, ?_, ?_, .inl rfl⟩
    · intro c hc
      rw [List.mem_append, List.mem_append, List.mem_singleton, List.mem_replicate] at hc
      rcases hc with rfl | ⟨-, rfl⟩ | hc
      · rfl
      · rfl
      · exact hdigit c hc
    · rw [List.singleton_append, Nat.ofDigitChars_cons, Nat.ofDigitChars_append,
        Nat.ofDigitChars_replicate_zero]
      simpa using hdigits
    · rw [List.length_append, List.length_replicate]
      omega

theorem plain_eq_cons (hd : 0 < d.digits) : ∃ c s, layout.plain d = c :: s ∧ c.isDigit := by
  rcases Int.lt_or_le d.exponent 0 with hneg | hnonneg
  · obtain ⟨whole, fraction, htext, hdigit, -, -, hwhole⟩ := layout.plain_of_neg hneg
    have hne : whole ≠ [] := by
      rcases hwhole with rfl | ⟨hne, -⟩
      · exact List.cons_ne_nil _ _
      · exact hne
    obtain ⟨c, cs, rfl⟩ := List.exists_cons_of_ne_nil hne
    exact ⟨c, _, htext, hdigit c List.mem_cons_self⟩
  · obtain ⟨c, cs, hcs, hc⟩ := toDigits_eq_digit_cons (d.digits * 10 ^ d.exponent.toNat)
    exact ⟨c, _, by rw [layout.plain_of_nonneg hd hnonneg, hcs]; rfl, hc⟩

theorem magnitude_eq_cons {m : ℕ} {q : ℤ} (h : Binary64.Canonical m q) :
    ∃ c s, layout.magnitude m q = c :: s ∧ c.isDigit := by
  unfold magnitude
  dsimp only
  split
  · exact ⟨'0', _, rfl, rfl⟩
  · rename_i hm
    have hd := Interval.shortest_pos h (Nat.pos_of_ne_zero hm) layout.tie
    split
    · exact layout.plain_eq_cons hd
    · unfold scientific
      dsimp only
      obtain ⟨c, ds, hds, hc⟩ := toDigits_eq_digit_cons (Decimal.shortest layout.tie m q).digits
      rw [hds]
      exact ⟨c, _, rfl, hc⟩

/-- Digits and point stand for the decimal if whole numbers have no mark. -/
theorem pointValue_plain (hmark : layout.wholeMark = []) (hd : 0 < d.digits) :
    pointValue (layout.plain d) = d.value := by
  rcases Int.lt_or_le d.exponent 0 with hneg | hnonneg
  · obtain ⟨whole, fraction, htext, hdigit, hdigits, hlength, -⟩ := layout.plain_of_neg hneg
    have hexponent : d.exponent = -(fraction.length : ℤ) := by omega
    rw [htext, pointValue_point fun c hc => hdigit c (List.mem_append_left _ hc), hdigits,
      Digits.value, hexponent, zpow_neg, zpow_natCast, div_eq_mul_inv]
  · obtain ⟨k, hk⟩ := Int.eq_ofNat_of_zero_le hnonneg
    rw [layout.plain_of_nonneg hd hnonneg, hmark, List.append_nil, pointValue_toDigits, Digits.value, hk,
      zpow_natCast]
    push_cast
    rfl

end Layout

end Decimal

/-! ## Doubles in attributes -/

namespace Scalar

open Decimal Decimal.Binary64 Decimal.Interval

variable {x y : Float} {negative : Bool} {m : ℕ} {q : ℤ}

theorem toList_fractionLayout_text (hm : 0 < m) : (fractionLayout.text negative m q).toList =
    if negative then '-' :: fractionLayout.plain (Decimal.shortest .away m q)
    else fractionLayout.plain (Decimal.shortest .away m q) := by
  rw [Layout.text, String.toList_ofList, Layout.magnitude, if_neg hm.ne']
  rfl

theorem toList_toString (n : ℤ) : (toString n).toList =
    if n < 0 then '-' :: Nat.toDigits 10 n.natAbs else Nat.toDigits 10 n.natAbs := by
  rw [Int.toString_eq_repr, Int.repr_eq_if]
  rcases Int.lt_or_le n 0 with h | h
  · rw [if_neg (by omega), if_pos h, String.toList_append, Nat.toList_repr,
      show (-n).toNat = n.natAbs by omega]
    rfl
  · rw [if_pos h, if_neg (by omega), Nat.toList_repr, show n.toNat = n.natAbs by omega]

/-- **The text of a finite double stands for a number in its interval**, behind the sign of what is
not zero. -/
theorem floatText_spec (h : ofFloat x = .finite negative m q) : ∃ cs,
    (floatText x).toList = (if negative ∧ 0 < m then '-' :: cs else cs) ∧
      (∃ c s, cs = c :: s ∧ c.isDigit) ∧ (around m q).Mem (pointValue cs) := by
  obtain ⟨hc, -⟩ := canonical_of_ofFloat h
  rcases Nat.eq_zero_or_pos m with rfl | hm
  · obtain rfl := hc.exponent_of_zero
    refine ⟨['0'], ?_, ⟨'0', [], rfl, rfl⟩, ?_⟩
    · rw [floatText_of_zero h, if_neg (by simp)]
      rfl
    · have := mem_around_self 0 (-1074)
      simpa [pointValue, Nat.ofDigitChars] using this
  have hplain : ∃ cs, (fractionLayout.text negative m q).toList =
      (if negative ∧ 0 < m then '-' :: cs else cs) ∧ (∃ c s, cs = c :: s ∧ c.isDigit) ∧
        (around m q).Mem (pointValue cs) := by
    have hpos := shortest_pos hc hm .away
    refine ⟨_, ?_, fractionLayout.plain_eq_cons hpos, ?_⟩
    · simp only [toList_fractionLayout_text hm, hm, and_true]
    · rw [fractionLayout.pointValue_plain rfl hpos]
      exact mem_shortest hc hm .away
  simp only [floatText, h]
  cases hn : (Binary64.finite negative m q).integer? with
  | none => exact hplain
  | some n =>
    dsimp only
    split
    · -- A whole number is written out, so its text stands for the double itself.
      have hvalue := integer?_eq_some_iff.1 hn
      rw [value?, Option.some_inj] at hvalue
      have hpos : (0 : ℚ) < m * 2 ^ q := mul_pos (Nat.cast_pos.2 hm) (two_zpow_pos q)
      have hmagnitude : (n.natAbs : ℚ) = m * 2 ^ q := by
        rw [Nat.cast_natAbs, Int.cast_abs, ← hvalue, mul_assoc, abs_mul, abs_of_pos hpos]
        cases negative <;> simp [signFactor]
      have hsign : n < 0 ↔ negative = true ∧ 0 < m := by
        rw [← Int.cast_lt_zero (R := ℚ), ← hvalue, mul_assoc]
        cases negative
        · simpa [signFactor] using hpos.le
        · simpa [signFactor, hm] using hpos
      refine ⟨_, ?_, Json.toDigits_eq_digit_cons n.natAbs, ?_⟩
      · simp only [toList_toString, hsign]
      · rw [pointValue_toDigits, hmagnitude]
        exact mem_around_self m q
    · exact hplain

/-- What begins with a digit has no sign, so signs and digits are told apart. -/
theorem sign_cons_inj {c c' : Char} {s s' : List Char} (hc : c.isDigit) (hc' : c'.isDigit)
    {p p' : Prop} [Decidable p] [Decidable p']
    (h : (if p then '-' :: c :: s else c :: s) = if p' then '-' :: c' :: s' else c' :: s') :
    (p ↔ p') ∧ c :: s = c' :: s' := by
  have hne : c ≠ '-' := by rintro rfl; exact absurd hc (by decide)
  have hne' : c' ≠ '-' := by rintro rfl; exact absurd hc' (by decide)
  split_ifs at h with h₁ h₂ h₂
  · exact ⟨iff_of_true h₁ h₂, (List.cons.inj h).2⟩
  · exact absurd (List.cons.inj h).1.symm hne'
  · exact absurd (List.cons.inj h).1 hne
  · exact ⟨iff_of_false h₁ h₂, h⟩

/-- **Doubles have the same text just if they are equal**, as the zeros are. -/
theorem floatText_eq_iff (hx : (ofFloat x).isFinite) (hy : (ofFloat y).isFinite) :
    floatText x = floatText y ↔ (x == y) = true := by
  constructor
  · intro h
    obtain ⟨negative, m, q, hfx⟩ := exists_of_isFinite hx
    obtain ⟨negative', m', q', hfy⟩ := exists_of_isFinite hy
    obtain ⟨cs, hcs, ⟨c, s, rfl, hc⟩, hv⟩ := floatText_spec hfx
    obtain ⟨cs', hcs', ⟨c', s', rfl, hc'⟩, hv'⟩ := floatText_spec hfy
    rw [h, hcs'] at hcs
    obtain ⟨hnegative, hdigits⟩ := sign_cons_inj hc' hc hcs
    rw [hdigits] at hv'
    obtain ⟨rfl, rfl⟩ := eq_of_mem (canonical_of_ofFloat hfx).1 (canonical_of_ofFloat hfy).1 hv hv'
    refine beq_of_ofFloat hfx hfy ?_
    rcases Nat.eq_zero_or_pos m with hm | hm
    · exact .inr hm
    · left
      simp only [hm, and_true] at hnegative
      exact (Bool.eq_iff_iff.2 hnegative).symm
  · intro h
    exact text_of_beq (s := .float x) (t := .float y) h

end Scalar

end MarkupTree

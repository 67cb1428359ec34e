import MarkupTree.Proofs.Json.FloatError
import MarkupTree.Proofs.Json.Reader

/-!
# Doubles that are written and read

`reread x` is the double that comes back for `x`: the one that the reader makes of the digits and
the exponent that it gathers from the text of `x` (`scanned`). There is always one, since no text of
a double is out of range (`ofFloat_reread`), and it is never far from `x` (`within_reread`). Where
digits and power of ten are doubles, it is `x` (`reread_beq_of_exact`). So every written number is
read as a number (`Number.readsAs_reread`), and every written value as the value with the numbers
that come back (`Value.read_text_reread`).
-/

namespace MarkupTree.Json

open Decimal Decimal.Binary64

/-- The digits and the exponent that are gathered from the text of a double. -/
def scanned (x : Float) : Digits :=
  match ofFloat x with
  | .finite _ m q => scannedDigits m q
  | _ => ⟨0, 0⟩

/-- The double that comes back when a finite one is written and read: the double for what is
gathered from the text, with the sign. -/
def reread (x : Float) : Float :=
  match ofFloat x, floatOf? (scanned x).digits (scanned x).exponent with
  | .finite negative _ _, some y => if negative then -y else y
  | _, _ => x

/-- Digits that are a double themselves, and an exponent with a power of ten that is one. -/
def Exact (d : Digits) : Prop :=
  (ofFloat d.digits.toUInt64.toFloat).integer? = some (d.digits : ℤ) ∧ d.exponent.natAbs ≤ 22

instance (d : Digits) : Decidable (Exact d) := inferInstanceAs (Decidable (_ ∧ _))

theorem exact_of_le {d : Digits} (hd : d.digits ≤ 2 * hiddenBit) (h : d.exponent.natAbs ≤ 22) :
    Exact d := ⟨integer?_toFloat hd, h⟩

variable {x : Float} {negative : Bool} {m : ℕ} {q : ℤ}

theorem scanned_eq (h : ofFloat x = .finite negative m q) : scanned x = scannedDigits m q := by
  rw [scanned, h]

/-- What comes back is what the reader makes of the text, with the sign. -/
theorem ofFloat_reread (h : ofFloat x = .finite negative m q) : ∃ y n r,
    floatOf? (scanned x).digits (scanned x).exponent = some y ∧ ofFloat y = .finite false n r ∧
      reread x = (if negative then -y else y) ∧ ofFloat (reread x) = .finite negative n r := by
  obtain ⟨hc, hq⟩ := canonical_of_ofFloat h
  obtain ⟨y, hy, n, r, hfinite⟩ := exists_floatOf?_scannedDigits hc hq
  rw [← scanned_eq h] at hy
  have hreread : reread x = if negative then -y else y := by rw [reread, h, hy]
  exact ⟨y, n, r, hy, hfinite, hreread, hreread ▸ ofFloat_signed hfinite⟩

/-- **A double comes back within eight units in its last place**, with its sign. -/
theorem within_reread (h : (ofFloat x).isFinite) : (ofFloat x).Within 8 (ofFloat (reread x)) := by
  obtain ⟨negative, m, q, hx⟩ := exists_of_isFinite h
  obtain ⟨hc, hq⟩ := canonical_of_ofFloat hx
  obtain ⟨y, n, r, hy, hfinite, -, hreread⟩ := ofFloat_reread hx
  rw [scanned_eq hx] at hy
  rw [hx, hreread]
  refine ⟨rfl, ?_⟩
  rcases Nat.eq_zero_or_pos m with rfl | hm
  · obtain ⟨y', hy', hzero⟩ := floatOf?_zero
    rw [scannedDigits_zero, hy', Option.some_inj] at hy
    rw [← hy, hzero] at hfinite
    obtain ⟨-, rfl, -⟩ := Binary64.finite.inj hfinite
    simpa using (Interval.two_zpow_pos q).le
  · exact_mod_cast floatOf?_scannedDigits_near hc hm hq hy hfinite

theorem isFinite_reread (h : (ofFloat x).isFinite) : (ofFloat (reread x)).isFinite := by
  obtain ⟨negative, m, q, hx⟩ := exists_of_isFinite h
  obtain ⟨y, n, r, -, -, -, hreread⟩ := ofFloat_reread hx
  rw [hreread]
  rfl

/-- **A double of which the digits and the power of ten are doubles comes back.** -/
theorem reread_beq_of_exact (h : (ofFloat x).isFinite) (hexact : Exact (scanned x)) :
    (reread x == x) = true := by
  obtain ⟨negative, m, q, hx⟩ := exists_of_isFinite h
  obtain ⟨hc, hq⟩ := canonical_of_ofFloat hx
  obtain ⟨y, -, -, hy, -, hreread, -⟩ := ofFloat_reread hx
  obtain ⟨hdigits, hexponent⟩ := hexact
  rw [scanned_eq hx] at hy hdigits hexponent
  have hsame : ofFloat y = .finite false m q := by
    rcases Nat.eq_zero_or_pos m with rfl | hm
    · obtain rfl := hc.exponent_of_zero
      obtain ⟨y', hy', hzero⟩ := floatOf?_zero
      rw [scannedDigits_zero, hy', Option.some_inj] at hy
      rw [← hy, hzero]
    · obtain ⟨hpos, -⟩ := scannedDigits_bounds hc hm hq
      have hmem := Interval.mem_shortest hc hm .toEven
      rw [← scannedDigits_value hm] at hmem
      obtain ⟨y', hy', hsame⟩ :=
        floatOf?_of_exact hc hq hpos hdigits (Nat.lt_succ_of_le hexponent) hmem
      rw [hy, Option.some_inj] at hy'
      rw [hy', hsame]
  exact beq_of_ofFloat (hreread ▸ ofFloat_signed hsame) hx (.inl rfl)

/-! ## Numbers -/

/-- The number that comes back. -/
def Number.reread : Number → Number
  | .float x h => .float (Json.reread x) (isFinite_reread h)
  | n => n

/-- What is below zero is written with a sign. -/
def Number.Signed : Number → Prop
  | .negative n => n.toInt < 0
  | .natural _ | .float _ _ => True

theorem Number.IsInteger.signed {n : Number} (h : n.IsInteger) : n.Signed := by
  cases n with
  | negative n => exact h
  | natural | float => trivial

/-- **A written number is read as the number that comes back.** -/
theorem Number.readsAs_reread {n : Number} (h : n.Signed) : n.ReadsAs n.reread := by
  cases n with
  | natural n => exact IsInteger.readsAs trivial
  | negative n => exact IsInteger.readsAs h
  | float x hfinite =>
    obtain ⟨negative, m, q, hx⟩ := exists_of_isFinite hfinite
    obtain ⟨hc, hq⟩ := canonical_of_ofFloat hx
    obtain ⟨y, -, -, hy, -, hreread, -⟩ := ofFloat_reread hx
    rw [scanned_eq hx] at hy
    obtain ⟨c, s, hs, hdigit⟩ := floatLayout.magnitude_eq_cons hc
    have htext : (Number.float x hfinite).text.toList =
        if negative then '-' :: floatLayout.magnitude m q else floatLayout.magnitude m q := by
      rw [text, hx]
      exact String.toList_ofList
    have hnumber : Number.ofFloat? (Json.reread x) = some (reread (.float x hfinite)) :=
      dif_pos (isFinite_reread hfinite)
    have hbody : ∀ {rest}, NumberEnds rest → numberBody negative (floatLayout.magnitude m q ++ rest) =
        .ok (reread (.float x hfinite), rest) := by
      intro rest hrest
      rw [numberBody_magnitude negative hc hq hrest, hy, signedNumber, Option.bind_some, ← hreread,
        hnumber]
    cases negative with
    | false =>
      refine ⟨⟨c, s, htext.trans hs, .inl hdigit⟩, fun {rest} hrest => ?_⟩
      rw [htext, if_neg Bool.false_ne_true, hs, List.cons_append, plainValue_digit hdigit,
        ← List.cons_append, ← hs, hbody hrest]
      rfl
    | true =>
      refine ⟨⟨'-', _, htext, .inr rfl⟩, fun {rest} hrest => ?_⟩
      rw [htext, if_pos rfl, List.cons_append, plainValue, hbody hrest]
      rfl

/-- **The text of a value is read as the value with the numbers that come back.** -/
theorem Value.read_text_reread {v : Value} (h : v.Every Number.Signed) (hdepth : v.depth ≤ maxDepth) :
    Value.read v.text = .ok (v.mapNumbers Number.reread) :=
  read_text_mapNumbers (h.imp fun _ hn => Number.readsAs_reread hn) hdepth

end MarkupTree.Json

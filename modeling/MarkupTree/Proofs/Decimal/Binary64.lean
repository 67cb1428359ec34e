import MarkupTree.Decimal.Binary64

/-!
# Doubles and their bits

The number that is read off the bits of a double is the one that arithmetic works with
(`ofBits_eq_ofUnpacked`). So doubles that compare as equal stand for the same number, but that both
zeros are equal (`ofFloat_of_beq`).
-/

namespace MarkupTree.Decimal.Binary64

open Float.Model
open Float.Model.UnpackedFloat hiding unpack

theorem exists_of_isFinite {b : Binary64} (h : b.isFinite) :
    ∃ negative m q, b = .finite negative m q := by
  cases b with
  | nan | infinity => cases h
  | finite negative m q => exact ⟨negative, m, q, rfl⟩

/-! ## The three fields -/

section Fields

variable (bits : UInt64)

theorem toNat_unpackMantissa :
    (@unpackMantissa .binary64 bits.toBitVec).toNat = bits.toNat % hiddenBit := by
  show (BitVec.extractLsb 51 0 bits.toBitVec).toNat = _
  rw [BitVec.extractLsb_toNat, Nat.shiftRight_zero]
  rfl

theorem toNat_unpackExponent :
    (@unpackExponent .binary64 bits.toBitVec).toNat = bits.toNat / hiddenBit % 2048 := by
  show (BitVec.extractLsb 62 52 bits.toBitVec).toNat = _
  rw [BitVec.extractLsb_toNat, Nat.shiftRight_eq_div_pow]
  rfl

theorem toNat_unpackSign :
    (@unpackSign .binary64 bits.toBitVec).toNat = bits.toNat / 0x8000000000000000 % 2 := by
  show (BitVec.extractLsb 63 63 bits.toBitVec).toNat = _
  rw [BitVec.extractLsb_toNat, Nat.shiftRight_eq_div_pow]
  rfl

theorem toNat_hiddenBit_append (m : BitVec 52) : (1#1 ++ m).toNat = hiddenBit + m.toNat := by
  rw [BitVec.toNat_append, ← Nat.shiftLeft_add_eq_or_of_lt m.isLt]
  simp [Nat.shiftLeft_eq, hiddenBit]

end Fields

/-! ## Numbers -/

/-- Whether a sign is that of numbers below zero. -/
def isNegative : Sign → Bool
  | .negative => true
  | .positive => false

/-- The number that arithmetic works with. -/
def ofUnpacked : UnpackedFloat → Binary64
  | .notANumber => .nan
  | .infinity s => .infinity (isNegative s)
  | .zero s => .finite (isNegative s) 0 (-1074)
  | .finite s m e _ => .finite (isNegative s) m e

theorem isNegative_unpackSign (bits : UInt64) :
    isNegative (Sign.ofBitVec (@unpackSign .binary64 bits.toBitVec)) =
      bits.toNat.testBit 63 := by
  have hsign := toNat_unpackSign bits
  rw [Nat.testBit_eq_decide_div_mod_eq, ← hsign, Sign.ofBitVec]
  generalize @unpackSign .binary64 bits.toBitVec = s
  by_cases hs : s = 0#1
  · subst hs
    rfl
  · have hone : s = 1#1 := by
      have := s.isLt
      rw [← BitVec.toNat_inj] at hs ⊢
      simp at hs ⊢
      omega
    subst hone
    rfl

/-- The number that is read off the bits is the one that arithmetic works with. -/
theorem ofBits_eq_ofUnpacked (bits : UInt64) :
    ofBits bits = ofUnpacked (UnpackedFloat.unpack .binary64 bits.toBitVec) := by
  have hbias : Format.binary64.exponentBias = 1023 := rfl
  unfold ofBits UnpackedFloat.unpack
  rw [← toNat_unpackMantissa bits, ← toNat_unpackExponent bits, ← isNegative_unpackSign bits, hbias]
  have htop : (@unpackExponent .binary64 bits.toBitVec).toNat = 2047 ↔
      @unpackExponent .binary64 bits.toBitVec = -1#11 := by
    rw [← BitVec.toNat_inj]
    rfl
  have hzero : (@unpackExponent .binary64 bits.toBitVec).toNat = 0 ↔
      @unpackExponent .binary64 bits.toBitVec = 0#11 := by
    rw [← BitVec.toNat_inj]
    rfl
  have hnone : (@unpackMantissa .binary64 bits.toBitVec).toNat = 0 ↔
      @unpackMantissa .binary64 bits.toBitVec = 0#52 := by
    rw [← BitVec.toNat_inj]
    rfl
  dsimp only
  by_cases he : @unpackExponent .binary64 bits.toBitVec = -1#11
  · rw [if_pos (htop.2 he), if_pos he]
    by_cases hm : @unpackMantissa .binary64 bits.toBitVec = 0#52
    · rw [if_pos (hnone.2 hm), if_pos hm]
      rfl
    · rw [if_neg (mt hnone.1 hm), if_neg hm]
      rfl
  · rw [if_neg (mt htop.1 he), if_neg he]
    by_cases hfield : @unpackExponent .binary64 bits.toBitVec = 0#11
    · rw [if_pos (hzero.2 hfield), if_pos hfield]
      by_cases hm : @unpackMantissa .binary64 bits.toBitVec = 0#52
      · rw [dif_pos hm, hnone.2 hm]
        rfl
      · rw [dif_neg hm, hzero.2 hfield]
        rfl
    · rw [if_neg (mt hzero.1 hfield), if_neg hfield, ← toNat_hiddenBit_append]
      rfl

theorem ofFloat_eq_ofUnpacked (x : Float) : ofFloat x = ofUnpacked x.toModel.unpack :=
  ofBits_eq_ofUnpacked x.toBits

theorem integer?_zero (negative : Bool) (q : Int) : (finite negative 0 q).integer? = some 0 := by
  simp [integer?]

/-! ## Equality -/

theorem eq_of_compare_then {m n : Nat} {e f : Int}
    (h : (compare e f).then (compare m n) = .eq) : e = f ∧ m = n := by
  rw [Ordering.then_eq_eq] at h
  exact ⟨Std.LawfulEqCmp.eq_of_compare h.1, Std.LawfulEqCmp.eq_of_compare h.2⟩

theorem ofUnpacked_of_compare_finite {s : Sign} {m : Nat} {e : Int} {hm : 0 < m} {b : UnpackedFloat}
    (h : (UnpackedFloat.finite s m e hm).compare b = some .eq) :
    b = .finite s m e hm := by
  cases b with
  | notANumber => cases s <;> cases h
  | infinity t => cases s <;> cases t <;> cases h
  | zero t => cases s <;> cases h
  | finite t n f hn =>
    have hparts : t = s ∧ e = f ∧ m = n := by
      cases s with
      | positive =>
        cases t with
        | positive => exact ⟨rfl, eq_of_compare_then (Option.some.inj h)⟩
        | negative => cases h
      | negative =>
        cases t with
        | positive => cases h
        | negative =>
          exact ⟨rfl, eq_of_compare_then (Ordering.swap_eq_eq.1 (Option.some.inj h))⟩
    obtain ⟨rfl, rfl, rfl⟩ := hparts
    rfl

/-- Doubles that are equal stand for the same number, or are zeros. -/
theorem ofFloat_of_beq {x y : Float} (h : (x == y) = true) : ofFloat x = ofFloat y ∨
    ∃ negative negative', ofFloat x = .finite negative 0 (-1074) ∧
      ofFloat y = .finite negative' 0 (-1074) := by
  have hcompare : x.toModel.unpack.compare y.toModel.unpack = some .eq := eq_of_beq h
  rw [ofFloat_eq_ofUnpacked, ofFloat_eq_ofUnpacked]
  generalize x.toModel.unpack = a at hcompare ⊢
  generalize y.toModel.unpack = b at hcompare ⊢
  cases a with
  | notANumber => cases hcompare
  | infinity s =>
    left
    cases b with
    | notANumber => cases s <;> cases hcompare
    | zero t | finite t => cases s <;> cases hcompare
    | infinity t => cases s <;> cases t <;> cases hcompare <;> rfl
  | zero s =>
    right
    cases b with
    | zero t => exact ⟨_, _, rfl, rfl⟩
    | notANumber => cases hcompare
    | infinity t | finite t => cases t <;> cases hcompare
  | finite s m e hm =>
    left
    rw [ofUnpacked_of_compare_finite hcompare]

end MarkupTree.Decimal.Binary64

import MarkupTree.Proofs.Decimal.Exact
import MarkupTree.Proofs.Dedupe
import Mathlib

/-!
# Integers among the scalars

A scalar may be an integer in three ways: signed, unsigned, or as a double that is a whole number,
up to the bound below which no whole number lies between two doubles (`Scalar.Denotes`); the doubles
that are written as integers are these (`Scalar.floatText_of_finite`). It is written in the decimal
form of the integer in each of them (`Scalar.Denotes.text`), so scalars are told apart by their
texts just if they are other integers (`Scalar.text_eq_text_iff_of_denotes`). A sequence of them is
written with one item for each integer, if texts are to be written once.
-/

namespace MarkupTree

open Decimal OrderedMap

namespace Scalar

/-- The scalar is the integer. A double is one up to `2 ^ 53`, either zero being zero; unsigned
numbers may be small enough for a signed one. -/
def Denotes : Scalar → ℤ → Prop
  | .int n, z => n.toInt = z
  | .uint n, z => (n.toNat : ℤ) = z
  | .float x, z => Binary64.valueOfBits x.toBits = some (z : ℚ) ∧ z.natAbs ≤ 0x20000000000000
  | .bool _, _ | .str _, _ | .symbol _, _ => False

theorem floatText_of_integer? {x : Float} {z : ℤ} (h : (Binary64.ofFloat x).integer? = some z)
    (hz : z.natAbs ≤ 0x20000000000000) : floatText x = toString z := by
  unfold floatText
  cases hx : Binary64.ofFloat x with
  | nan | infinity =>
    rw [hx] at h
    cases h
  | finite negative m q =>
    rw [hx] at h
    have hbound : z.natAbs ≤ 2 * Binary64.hiddenBit := hz
    simp only [h, hbound, if_true]

/-- A double is written as an integer if nothing of it stands behind the point and it is at most
`2 ^ 53` in size. It then is the signed integer that is left when it is cut off at the point. -/
theorem floatText_of_finite {x : Float} {negative : Bool} {m : ℕ} {q : ℤ} {v : ℚ}
    (hx : Binary64.ofFloat x = .finite negative m q) (hv : Binary64.valueOfBits x.toBits = some v) :
    floatText x = if Int.fract v = 0 ∧ |v| ≤ 2 ^ 53
      then toString (Int64.ofInt (v.num.tdiv v.den)).toInt
      else fractionLayout.text negative m q := by
  have hinteger (z : ℤ) : (Binary64.ofFloat x).integer? = some z ↔ v = z := by
    rw [Binary64.integer?_eq_some_iff, Binary64.ofFloat, Binary64.value?_ofBits, hv,
      Option.some_inj]
  have hbound (z : ℤ) : |(z : ℚ)| ≤ 2 ^ 53 ↔ z.natAbs ≤ 0x20000000000000 := by
    rw [← Int.cast_abs, Int.abs_eq_natAbs]
    norm_cast
  by_cases h : Int.fract v = 0 ∧ |v| ≤ 2 ^ 53
  · obtain ⟨⟨z, rfl⟩, hz⟩ := h.imp_left Int.fract_eq_zero_iff.1
    rw [hbound] at hz
    rw [if_pos h, Rat.num_intCast, Rat.den_intCast, Nat.cast_one, Int.tdiv_one,
      Int64.toInt_ofInt_of_le (by omega) (by omega)]
    exact floatText_of_integer? ((hinteger z).2 rfl) hz
  · rw [if_neg h]
    unfold floatText
    rw [hx] at hinteger ⊢
    cases hz : (Binary64.finite negative m q).integer? with
    | none => simp only [hz]
    | some z =>
      obtain rfl := (hinteger z).1 hz
      have hlarge : ¬z.natAbs ≤ 2 * Binary64.hiddenBit := fun hle =>
        h ⟨Int.fract_intCast z, (hbound z).2 hle⟩
      simp only [hz, if_neg hlarge]

theorem denotes_float_iff {x : Float} {z : ℤ} : (float x).Denotes z ↔
    (Binary64.ofFloat x).integer? = some z ∧ z.natAbs ≤ 0x20000000000000 := by
  rw [Denotes, Binary64.integer?_eq_some_iff, Binary64.ofFloat, Binary64.value?_ofBits]

/-- **An integer is written in its decimal form**, whatever scalar it is. -/
theorem Denotes.text {s : Scalar} {z : ℤ} (h : s.Denotes z) : s.text = toString z := by
  cases s with
  | bool | str | symbol => cases h
  | int n => exact congrArg toString h
  | uint n => exact congrArg toString h
  | float x =>
    obtain ⟨hx, hz⟩ := denotes_float_iff.1 h
    exact floatText_of_integer? hx hz

theorem toString_injective : Function.Injective (toString : ℤ → String) := by
  intro z w h
  rw [Int.toString_eq_repr, Int.toString_eq_repr] at h
  exact Int.repr_inj.1 h

/-! ## Sequences -/

theorem map_text_of_denotes {ss : List Scalar} {zs : List ℤ} (h : List.Forall₂ Denotes ss zs) :
    ss.map text = zs.map toString := by
  induction h with
  | nil => rfl
  | cons hs _ ih => rw [List.map_cons, List.map_cons, hs.text, ih]

theorem forall₂_denotes_of_map_text {ss : List Scalar} (h : ∀ s ∈ ss, ∃ z, s.Denotes z)
    {zs : List ℤ} (htext : ss.map text = zs.map toString) : List.Forall₂ Denotes ss zs := by
  induction ss generalizing zs with
  | nil =>
    obtain rfl : zs = [] := List.map_eq_nil_iff.1 htext.symm
    exact .nil
  | cons s ss ih =>
    cases zs with
    | nil => cases htext
    | cons z zs =>
      obtain ⟨hs, hss⟩ := List.cons.inj htext
      obtain ⟨w, hw⟩ := h s List.mem_cons_self
      obtain rfl : w = z := toString_injective (hw.text.symm.trans hs)
      exact .cons hw (ih (fun t ht => h t (List.mem_cons_of_mem s ht)) hss)

theorem exists_denotes_of_mem {ss : List Scalar} {zs : List ℤ} (h : List.Forall₂ Denotes ss zs) :
    ∀ s ∈ ss, ∃ z, s.Denotes z := by
  induction h with
  | nil => exact fun s hs => absurd hs List.not_mem_nil
  | cons hs _ ih => exact List.forall_mem_cons.2 ⟨⟨_, hs⟩, ih⟩

/-- Of scalars that are integers, those with the first texts are the first of each integer. -/
theorem denotes_firstTexts {ss : List Scalar} {zs : List ℤ} (h : List.Forall₂ Denotes ss zs) :
    List.Forall₂ Denotes (firstTexts [] ss) zs.eraseDups := by
  refine forall₂_denotes_of_map_text (fun s hs => ?_) ?_
  · exact exists_denotes_of_mem h s ((firstTexts_sublist [] ss).subset hs)
  · rw [map_text_firstTexts_nil, map_text_of_denotes h, eraseDups_map toString_injective]

/-- **Integers are told apart by their texts, whatever scalars they are**, so a sequence of them is
written with each integer once. -/
theorem text_eq_text_iff_of_denotes :
    (∀ s z, Denotes s z → s.text = toString z) ∧
    (∀ s t z w, Denotes s z → Denotes t w → (s.text = t.text ↔ z = w)) ∧
    ∀ ss zs, List.Forall₂ Denotes ss zs →
      RenderOptions.deduping.formatValue (.list ss) = " ".intercalate (zs.eraseDups.map toString) ∧
      zs.eraseDups.Nodup ∧ (∀ z, z ∈ zs.eraseDups ↔ z ∈ zs) ∧
      ∃ kept, AttributeValue.dedupe (.list ss) = .list kept ∧ kept.Sublist ss ∧
        List.Forall₂ Denotes kept zs.eraseDups := by
  refine ⟨fun s z h => h.text, fun s t z w hs ht => ?_, fun ss zs h => ⟨?_, ?_, ?_, ?_⟩⟩
  · rw [hs.text, ht.text]
    exact toString_injective.eq_iff
  · have hkept := map_text_of_denotes (denotes_firstTexts h)
    rw [RenderOptions.formatValue_deduping]
    exact congrArg (" ".intercalate ·) hkept
  · exact nodup_eraseDups zs
  · exact fun z => List.mem_eraseDups
  · exact ⟨_, rfl, firstTexts_sublist [] ss, denotes_firstTexts h⟩

/-- Zero as either zero and as an unsigned number, and the bound in the three ways. -/
theorem text_eq_text_iff_of_denotes_bound :
    let negativeZero := Float.ofBits 0x8000000000000000
    let bound := Float.ofBits 0x4340000000000000
    let ss : List Scalar := [.float negativeZero, .float bound, .uint 0, .int (-1),
      .int 0x20000000000000, .float (Float.ofBits 0xbff0000000000000), .uint 0x20000000000000]
    let zs : List ℤ := [0, 0x20000000000000, 0, -1, 0x20000000000000, -1, 0x20000000000000]
    List.Forall₂ Denotes ss zs ∧ (float negativeZero).text = "0" ∧
      (float bound).text = (uint 0x20000000000000).text ∧
      RenderOptions.deduping.formatValue (.list ss) = "0 9007199254740992 -1" := by
  intro negativeZero bound ss zs
  have hzero : (float negativeZero).Denotes 0 :=
    denotes_float_iff.2 ⟨by decide +kernel, by decide⟩
  have hbound : (float bound).Denotes 0x20000000000000 :=
    denotes_float_iff.2 ⟨by decide +kernel, by decide⟩
  have hone : (float (Float.ofBits 0xbff0000000000000)).Denotes (-1) :=
    denotes_float_iff.2 ⟨by decide +kernel, by decide⟩
  have huint : (uint 0x20000000000000).Denotes 0x20000000000000 := by
    show ((0x20000000000000 : UInt64).toNat : ℤ) = 0x20000000000000
    decide +kernel
  have hss : List.Forall₂ Denotes ss zs :=
    .cons hzero (.cons hbound (.cons rfl (.cons rfl (.cons rfl (.cons hone (.cons huint .nil))))))
  obtain ⟨htext, hiff, hdedupe⟩ := text_eq_text_iff_of_denotes
  refine ⟨hss, htext _ _ hzero, (hiff _ _ _ _ hbound huint).2 rfl, ?_⟩
  rw [(hdedupe ss zs hss).1]
  decide +kernel

end Scalar

end MarkupTree

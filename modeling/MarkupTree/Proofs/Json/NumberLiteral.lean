import MarkupTree.Json.Reader
import MarkupTree.Json.Text
import MarkupTree.Proofs.Outcome

/-!
# Reading written integers

The digits of a natural number that fits sixty-four bits are gathered to the number itself
(`gather_toDigits`). So an integer is read as itself in front of whatever does not go on a number
(`NumberEnds`), zero and the least one not excepted (`plainValue_number`). `Number.ofInteger` is the
number for an integer, and its text is the decimal form of the integer (`text_ofInteger`).
-/

namespace MarkupTree.Json

/-- What may follow a written value: the end of the text, a comma, or the end of a container. -/
inductive Ends : List Char → Prop
  | nil : Ends []
  | comma (s : List Char) : Ends (',' :: s)
  | list (s : List Char) : Ends (']' :: s)
  | object (s : List Char) : Ends ('\x7d' :: s)

/-- What does not go on a number: no digit comes next, no point, and no letter of an exponent. -/
def NumberEnds (rest : List Char) : Prop :=
  ∀ c ∈ rest.head?, c.isDigit = false ∧ c ≠ '.' ∧ c ≠ 'e' ∧ c ≠ 'E'

theorem Ends.numberEnds {rest : List Char} (h : Ends rest) : NumberEnds rest := by
  unfold NumberEnds
  cases h <;> simp

theorem NumberEnds.startsWithDigit {rest : List Char} (h : NumberEnds rest) :
    startsWithDigit rest = false := by
  cases rest with
  | nil => rfl
  | cons c s => exact (h c rfl).1

/-- The numbers that are integers; those that are called negative are. -/
def Number.IsInteger : Number → Prop
  | .natural _ => True
  | .negative n => n.toInt < 0
  | .float _ _ => False

/-! ## Digits -/

theorem le_ofDigitChars (ds : List Char) (n : Nat) : n ≤ Nat.ofDigitChars 10 ds n := by
  have h : 1 * n ≤ 10 ^ ds.length * n := Nat.mul_le_mul_right n (Nat.one_le_pow _ _ (by decide))
  rw [Nat.ofDigitChars_eq_ofDigitChars_zero]
  omega

/-- Digits are gathered up to what is no digit, as long as their number stays within the bound. -/
theorem gather_digits {bound : Nat} {ds rest : List Char} (hds : ∀ c ∈ ds, c.isDigit)
    (hrest : startsWithDigit rest = false) (n count : Nat)
    (h : Nat.ofDigitChars 10 ds n ≤ bound) :
    gather bound n count (ds ++ rest) = (Nat.ofDigitChars 10 ds n, count + ds.length, rest) := by
  induction ds generalizing n count with
  | nil =>
    cases rest with
    | nil => rfl
    | cons c s =>
      have hc : c.isDigit = false := hrest
      simp [gather, hc]
  | cons c ds ih =>
    have hstep :
        Nat.ofDigitChars 10 (c :: ds) n = Nat.ofDigitChars 10 ds (n * 10 + digitValue c) := by
      rw [Nat.ofDigitChars_cons, Nat.mul_comm]
      rfl
    rw [hstep] at h ⊢
    -- The bound is kept by the whole number, so by every number on the way to it.
    have hc : c.isDigit ∧ n * 10 + digitValue c ≤ bound :=
      ⟨hds c List.mem_cons_self, Nat.le_trans (le_ofDigitChars ds _) h⟩
    have hmore := fun d hd => hds d (List.mem_cons_of_mem _ hd)
    rw [List.cons_append, gather, if_pos hc, ih hmore _ _ h, List.length_cons, Nat.add_right_comm,
      Nat.add_assoc]

theorem isDigit_toDigits (n : Nat) : ∀ c ∈ Nat.toDigits 10 n, c.isDigit := fun _ hc =>
  Nat.isDigit_of_mem_toDigits (by decide) (by decide) hc

theorem gather_toDigits {bound n : Nat} (h : n ≤ bound) {rest : List Char}
    (hrest : startsWithDigit rest = false) : gather bound 0 0 (Nat.toDigits 10 n ++ rest) =
      (n, (Nat.toDigits 10 n).length, rest) := by
  have hn : Nat.ofDigitChars 10 (Nat.toDigits 10 n) 0 ≤ bound := by
    rwa [Nat.ofDigitChars_ten_toDigits]
  rw [gather_digits (isDigit_toDigits n) hrest 0 0 hn, Nat.ofDigitChars_ten_toDigits, Nat.zero_add]

theorem toDigits_eq_cons {n : Nat} (h : 0 < n) : ∃ c ds, Nat.toDigits 10 n = c :: ds ∧ c ≠ '0' := by
  induction n using Nat.strongRecOn with
  | _ n ih =>
    by_cases hn : n < 10
    · refine ⟨n.digitChar, [], Nat.toDigits_of_lt_base hn, ?_⟩
      rw [ne_eq, Nat.digitChar_eq_zero]
      omega
    · obtain ⟨c, ds, hds, hc⟩ := ih (n / 10) (by omega) (by omega)
      refine ⟨c, ds ++ [(n % 10).digitChar], ?_, hc⟩
      rw [Nat.toDigits_of_base_le (by decide) (by omega), hds, List.cons_append]

/-! ## Integers -/

theorem afterInteger_of_numberEnds (negative : Bool) (n : Nat) {rest : List Char}
    (h : NumberEnds rest) : afterInteger negative n rest = integerNumber negative n rest := by
  unfold afterInteger
  split
  · exact absurd rfl (h _ rfl).2.1
  · exact absurd rfl (h _ rfl).2.2.1
  · exact absurd rfl (h _ rfl).2.2.2
  · rfl

/-- What begins with digits, but no zero in front of others, is gathered up to the digits' end. -/
theorem numberBody_digits (negative : Bool) {ds rest : List Char} (hdigit : ∀ c ∈ ds, c.isDigit)
    (hwhole : ds = ['0'] ∨ ∃ c cs, ds = c :: cs ∧ c ≠ '0')
    (hbound : Nat.ofDigitChars 10 ds 0 ≤ maxSignificand) (hrest : startsWithDigit rest = false) :
    numberBody negative (ds ++ rest) = afterInteger negative (Nat.ofDigitChars 10 ds 0) rest := by
  rcases hwhole with rfl | ⟨c, cs, rfl, hc⟩
  · show (if startsWithDigit rest then _ else afterInteger negative 0 rest) = _
    rw [hrest]
    rfl
  · have hmore : rest.takeWhile Char.isDigit = [] := by
      cases rest with
      | nil => rfl
      | cons d s =>
        have hd : d.isDigit = false := hrest
        exact List.takeWhile_cons_of_neg (by simp [hd])
    have hgather := gather_digits hdigit hrest 0 0 hbound
    have hfirst : c.isDigit := hdigit c List.mem_cons_self
    rw [List.cons_append, numberBody]
    · rw [← List.cons_append, hgather]
      simp [hfirst, hmore]
    · exact hc

theorem numberBody_toDigits (negative : Bool) {n : Nat} (hn : n ≤ maxSignificand)
    {rest : List Char} (h : NumberEnds rest) :
    numberBody negative (Nat.toDigits 10 n ++ rest) = integerNumber negative n rest := by
  have hdigits := Nat.ofDigitChars_ten_toDigits (n := n)
  have hwhole : Nat.toDigits 10 n = ['0'] ∨ ∃ c cs, Nat.toDigits 10 n = c :: cs ∧ c ≠ '0' := by
    rcases Nat.eq_zero_or_pos n with rfl | hpos
    · exact .inl (Nat.toDigits_zero 10)
    · exact .inr (toDigits_eq_cons hpos)
  rw [numberBody_digits negative (isDigit_toDigits n) hwhole (by rwa [hdigits]) h.startsWithDigit,
    hdigits, afterInteger_of_numberEnds negative n h]

theorem integerNumber_toNat (n : UInt64) (rest : List Char) :
    integerNumber false n.toNat rest = .ok (.natural n, rest) := by
  simp [integerNumber]

theorem integerNumber_neg_toInt {n : Int64} (h : n.toInt < 0) (rest : List Char) :
    integerNumber true (-n.toInt).toNat rest = .ok (.negative n, rest) := by
  have hle := n.le_toInt
  have hneg : -(((-n.toInt).toNat : Nat) : Int) = n.toInt := by omega
  have hfits : 0 < (-n.toInt).toNat ∧ (-n.toInt).toNat ≤ 0x8000000000000000 := by omega
  simp only [integerNumber, if_true, if_pos hfits, hneg, Int64.ofInt_toInt]

/-! ## The text of an integer -/

theorem Number.text_natural (n : UInt64) :
    (Number.natural n).text.toList = Nat.toDigits 10 n.toNat := by
  rw [text, Nat.toString_eq_repr, Nat.toList_repr]

theorem Number.text_negative {n : Int64} (h : n.toInt < 0) :
    (Number.negative n).text.toList = '-' :: Nat.toDigits 10 (-n.toInt).toNat := by
  rw [text, Int.toString_eq_repr, Int.repr_eq_if, if_neg (by omega), String.toList_append,
    Nat.toList_repr]
  rfl

theorem toDigits_eq_digit_cons (n : Nat) : ∃ c ds, Nat.toDigits 10 n = c :: ds ∧ c.isDigit := by
  obtain ⟨c, ds, h⟩ := List.exists_cons_of_ne_nil (Nat.toDigits_ne_nil (n := n) (b := 10))
  exact ⟨c, ds, h, isDigit_toDigits n c (h ▸ List.mem_cons_self)⟩

theorem Number.text_eq_cons {n : Number} (h : n.IsInteger) :
    ∃ c s, n.text.toList = c :: s ∧ (c.isDigit ∨ c = '-') := by
  cases n with
  | natural n =>
    obtain ⟨c, ds, hds, hc⟩ := toDigits_eq_digit_cons n.toNat
    exact ⟨c, ds, by rw [text_natural, hds], .inl hc⟩
  | negative n => exact ⟨_, _, text_negative h, .inr rfl⟩
  | float x => cases h

theorem plainValue_digit {c : Char} (hc : c.isDigit) (s : List Char) : plainValue (c :: s) =
    numberBody false (c :: s) >>= fun r => .ok (.number r.1, r.2) := by
  rw [plainValue, if_pos hc]
  · rfl
  all_goals
    rintro rfl
    exact absurd hc (by decide)

/-- **A written integer is read as itself**, in front of whatever does not go on it. -/
theorem plainValue_number {n : Number} (hn : n.IsInteger) {rest : List Char} (h : NumberEnds rest) :
    plainValue (n.text.toList ++ rest) = .ok (.number n, rest) := by
  cases n with
  | natural n =>
    have hn : n.toNat ≤ maxSignificand := Nat.le_of_lt_succ n.toNat_lt
    obtain ⟨c, ds, hds, hc⟩ := toDigits_eq_digit_cons n.toNat
    rw [Number.text_natural, hds, List.cons_append, plainValue_digit hc, ← List.cons_append, ← hds,
      numberBody_toDigits false hn h, integerNumber_toNat]
    rfl
  | negative n =>
    have hle := n.le_toInt
    have hfits : (-n.toInt).toNat ≤ maxSignificand := by
      unfold maxSignificand
      omega
    rw [Number.text_negative hn, List.cons_append, plainValue,
      numberBody_toDigits true hfits h, integerNumber_neg_toInt hn]
    rfl
  | float x => cases hn

/-- The text of `n` begins as numbers do, and is read as `n'` in front of whatever does not go on
it. -/
structure Number.ReadsAs (n n' : Number) : Prop where
  opens : ∃ c s, n.text.toList = c :: s ∧ (c.isDigit ∨ c = '-')
  reads {rest : List Char} : NumberEnds rest →
    plainValue (n.text.toList ++ rest) = .ok (.number n', rest)

theorem Number.ReadsAs.text_ne_nil {n n' : Number} (h : n.ReadsAs n') : n.text.toList ≠ [] := by
  obtain ⟨c, s, hs, -⟩ := h.opens
  rw [hs]
  exact List.cons_ne_nil c s

theorem Number.IsInteger.readsAs {n : Number} (h : n.IsInteger) : n.ReadsAs n :=
  ⟨text_eq_cons h, plainValue_number h⟩

/-! ## The number for an integer -/

/-- The integers of sixty-four bits, with a sign or without. -/
def Fits (z : Int) : Prop := -0x8000000000000000 ≤ z ∧ z ≤ 0xffffffffffffffff

instance (z : Int) : Decidable (Fits z) := inferInstanceAs (Decidable (_ ∧ _))

/-- The number for an integer. -/
def Number.ofInteger (z : Int) : Number :=
  if z < 0 then .negative (Int64.ofInt z) else .natural (UInt64.ofNat z.toNat)

theorem toInt_ofInt {z : Int} (h : -0x8000000000000000 ≤ z ∧ z ≤ 0x7fffffffffffffff) :
    (Int64.ofInt z).toInt = z :=
  Int64.toInt_ofInt_of_le h.1 (Int.lt_add_one_of_le h.2)

theorem toNat_ofNat_toNat {z : Int} (hz : 0 ≤ z) (h : Fits z) :
    (UInt64.ofNat z.toNat).toNat = z.toNat := by
  obtain ⟨-, hle⟩ := h
  exact UInt64.toNat_ofNat_of_lt (by simp only [UInt64.size]; omega)

theorem Number.isInteger_ofInteger {z : Int} (h : Fits z) : (ofInteger z).IsInteger := by
  unfold ofInteger
  split
  · rename_i hz
    show (Int64.ofInt z).toInt < 0
    rw [toInt_ofInt ⟨h.1, by omega⟩]
    exact hz
  · trivial

theorem Number.text_ofInteger {z : Int} (h : Fits z) : (ofInteger z).text = toString z := by
  unfold ofInteger
  split
  · rename_i hz
    rw [text, toInt_ofInt ⟨h.1, by omega⟩]
  · rename_i hz
    rw [text, toNat_ofNat_toNat (by omega) h, Int.toString_eq_repr, Int.repr_eq_if,
      if_pos (by omega), Nat.toString_eq_repr]

/-- **The decimal form of an integer is read as the integer.** -/
theorem plainValue_integer {z : Int} (hz : Fits z) {rest : List Char} (h : NumberEnds rest) :
    plainValue ((toString z).toList ++ rest) = .ok (.number (.ofInteger z), rest) := by
  rw [← Number.text_ofInteger hz]
  exact plainValue_number (Number.isInteger_ofInteger hz) h

end MarkupTree.Json

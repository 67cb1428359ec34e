import MarkupTree.Json.StringLiteral
import MarkupTree.Json.Text

/-!
# Reading written strings

A written character is a character, an escape of one letter, or four hexadecimal digits. Reading it
gains the character in each case (`stringFrom_escapedChar`), so a written string is read as itself,
whatever follows it (`stringBody_escaped`).
-/

namespace MarkupTree.Json

/-- After a character that does not end the string, the reader stands where it takes the machine. -/
theorem stringFrom_take {pairing : Pairing} {mode n : Mode} {c : Char} {d : Option Char}
    {rest : List Char} (hc : c ≠ '"') (h : mode.take pairing c rest = .ok (n, d))
    (gained : List Char) : stringFrom pairing mode gained (c :: rest) =
      stringFrom pairing n (d.toList ++ gained) rest := by
  rw [stringFrom]
  · simp only [h]
  · exact fun _ => hc

theorem stringFrom_letter {pairing : Pairing} {l c : Char} (hl : l ≠ 'u')
    (h : simpleEscape? l = some c) (gained rest : List Char) :
    stringFrom pairing .plain gained ('\\' :: l :: rest) =
      stringFrom pairing .plain (c :: gained) rest := by
  rw [stringFrom_take (by decide) (n := .escape) (d := none) rfl]
  by_cases hq : l = '"'
  · subst hq
    obtain rfl : '"' = c := by simpa [simpleEscape?] using h
    rw [stringFrom]
    · rfl
    · exact nofun
  · exact stringFrom_take hq (n := .plain) (d := some c) (by simp [Mode.take, hl, h]) gained

theorem hexValue?_digitChar : ∀ d < 16, hexValue? (Nat.digitChar d) = some d := by decide

theorem digitChar_ne_quote : ∀ d < 16, Nat.digitChar d ≠ '"' := by decide

theorem stringFrom_control {c : Char} (hc : c.toNat < 32) (gained rest : List Char) :
    stringFrom .strict .plain gained ('\\' :: 'u' :: '0' :: '0' ::
      Nat.digitChar (c.toNat / 16) :: Nat.digitChar (c.toNat % 16) :: rest) =
      stringFrom .strict .plain (c :: gained) rest := by
  have h1 : c.toNat / 16 < 16 := by omega
  have h2 : c.toNat % 16 < 16 := by omega
  have hcode : c.toNat / 16 * 16 + c.toNat % 16 = c.toNat := by omega
  have hlow : isLowUnit c.toNat = false := by simp [isLowUnit]; omega
  have hhigh : isHighUnit c.toNat = false := by simp [isHighUnit]; omega
  rw [stringFrom_take (by decide) (n := .escape) (d := none) rfl,
    stringFrom_take (by decide) (n := .hex 0 0 none) (d := none) rfl,
    stringFrom_take (by decide) (n := .hex 1 0 none) (d := none) rfl,
    stringFrom_take (by decide) (n := .hex 2 0 none) (d := none) rfl,
    stringFrom_take (digitChar_ne_quote _ h1) (n := .hex 3 (c.toNat / 16) none) (d := none)
      (by simp [Mode.take, takeDigit, hexValue?_digitChar _ h1]),
    stringFrom_take (digitChar_ne_quote _ h2) (n := .plain) (d := some c)]
  · rfl
  · simp [Mode.take, takeDigit, hexValue?_digitChar _ h2, hcode, takeUnit, hlow, hhigh]

/-- Reading a written character gains it. -/
theorem stringFrom_escapedChar (c : Char) (gained rest : List Char) :
    stringFrom .strict .plain gained (escapedChar c ++ rest) =
      stringFrom .strict .plain (c :: gained) rest := by
  unfold escapedChar
  -- the seven characters with an escape of one letter
  iterate 7
    split
    · rename_i h
      subst h
      exact stringFrom_letter (by decide) rfl gained rest
  split
  · rename_i h
    exact stringFrom_control h gained rest
  · rename_i hquote hslash _ _ _ _ _ hcontrol
    have h : Mode.plain.take .strict c rest = .ok (.plain, some c) := by
      simp [Mode.take, hslash, hcontrol]
    exact stringFrom_take hquote h gained

theorem stringFrom_flatMap (s gained rest : List Char) :
    stringFrom .strict .plain gained (s.flatMap escapedChar ++ '"' :: rest) =
      .ok (String.ofList (gained.reverse ++ s), rest) := by
  induction s generalizing gained with
  | nil => simp [stringFrom]
  | cons c s ih =>
    rw [List.flatMap_cons, List.append_assoc, stringFrom_escapedChar, ih]
    simp

/-- **A written string is read as itself**, whatever follows it. -/
theorem stringBody_escaped (s : String) (rest : List Char) :
    stringBody (s.toList.flatMap escapedChar ++ '"' :: rest) = .ok (s, rest) := by
  rw [stringBody, stringFrom_flatMap]
  simp

theorem stringBefore_append (s : String) (a b : List Char) :
    stringBefore s a ++ b = stringBefore s (a ++ b) := by
  simp [stringBefore]

end MarkupTree.Json

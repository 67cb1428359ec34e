import MarkupTree.Proofs.Json.Unread
import MarkupTree.Proofs.Text.Position

/-!
# Where readers stop

A reader that stops has looked at a byte (`Halt.Looked`): it is stopped by a byte that it looks at,
or it has read a character. This holds of values that are no containers (`looked_plainValue`), and a
container is entered by its bracket; so it holds of a whole text (`looked_of_read`). The number of
bytes that a text is read to is then at least one, and no more than the text has
(`Halt.consumed_pos`, `Halt.consumed_le`).
-/

namespace MarkupTree.Json

open Text

variable {α : Type}

namespace Halt

/-- How many bytes of what is unread the reader has looked at. -/
def seen : Halt → Nat
  | .flaw _ _ seen => seen
  | .mismatch .. => 0

theorem consumed_eq (text : List Char) (h : Halt) : h.consumed text =
    min (byteCount text) (byteCount text - byteCount h.unread + h.seen) := by
  cases h with
  | flaw => rfl
  | mismatch => exact (Nat.min_eq_right (Nat.sub_le _ _)).symm

theorem consumed_le (text : List Char) (h : Halt) : h.consumed text ≤ byteCount text := by
  rw [consumed_eq]
  exact Nat.min_le_left _ _

/-- A reader of `s` has looked at a byte: at one where it has stopped, or at one that it has read.
-/
def Looked (s : List Char) (h : Halt) : Prop :=
  0 < h.seen ∨ ∃ c r, c :: r <:+ s ∧ h.unread <:+ r

theorem Looked.trans {s t : List Char} {h : Halt} (hlooked : h.Looked t) (hts : t <:+ s) :
    h.Looked s := by
  rcases hlooked with hseen | ⟨c, r, hr, hunread⟩
  · exact .inl hseen
  · exact .inr ⟨c, r, hr.trans hts, hunread⟩

theorem Looked.of_within {left : α → List Char} {x : Except Halt α} {c : Char} {s : List Char}
    {h : Halt} (hx : Within left s x) (herror : x = .error h) : h.Looked (c :: s) := by
  subst herror
  exact .inr ⟨c, s, List.suffix_rfl, hx⟩

theorem consumed_pos {text : List Char} {h : Halt} (hlooked : h.Looked text) (hne : text ≠ []) :
    1 ≤ h.consumed text := by
  have hcons : ∀ (c : Char) (s : List Char), byteCount s < byteCount (c :: s) := by
    intro c s
    have := c.utf8Size_pos
    show byteCount s < c.utf8Size + byteCount s
    omega
  rw [consumed_eq]
  rcases hlooked with hseen | ⟨c, r, hr, hunread⟩
  · obtain ⟨c, s, rfl⟩ := List.exists_cons_of_ne_nil hne
    have := hcons c s
    omega
  · have := hcons c r
    have := byteCount_le_of_suffix hr
    have := byteCount_le_of_suffix hunread
    omega

end Halt

/-! ## Values without parts -/

theorem digitValue_le {c : Char} (hc : c.isDigit = true) : digitValue c ≤ 9 := by
  have hval : c.toNat ≤ 57 := by
    rw [Char.isDigit, Bool.and_eq_true, decide_eq_true_iff, decide_eq_true_iff] at hc
    exact UInt32.le_iff_toNat_le.1 hc.2
  unfold digitValue
  omega

/-- A number that begins with a digit has been read by one character where it is out of range. -/
theorem looked_numberBody {c : Char} (hc : c.isDigit = true) {s : List Char} {h : Halt}
    (herror : numberBody false (c :: s) = .error h) : h.Looked (c :: s) := by
  unfold numberBody at herror
  split at herror
  · rename_i hnil
    cases hnil
  · rename_i q hq
    cases hq
    split at herror
    · cases herror
      exact .inl Nat.one_pos
    · exact .of_within (within_afterInteger _ _ s) herror
  · rename_i d q _ hq
    cases hq
    -- The first digit always fits, so at most what comes after it is left.
    have hrest : (gather maxSignificand 0 0 (c :: s)).2.2 <:+ s := by
      have hfits : 0 * 10 + digitValue c ≤ maxSignificand := by
        have := digitValue_le hc
        unfold maxSignificand
        omega
      unfold gather
      rw [if_pos ⟨hc, hfits⟩]
      exact gather_suffix _ _ _ s
    generalize gather maxSignificand 0 0 (c :: s) = gathered at hrest herror
    obtain ⟨n, count, rest⟩ := gathered
    have hmore := (List.dropWhile_suffix Char.isDigit).trans hrest
    dsimp only at hrest hmore herror
    rw [hc] at herror
    split at herror
    · cases ‹(!true) = true›
    · split at herror
      · exact .of_within ((within_afterInteger _ _ _).trans hrest) herror
      · split at herror
        · rename_i hdot
          rw [hdot] at hmore
          exact .of_within ((within_fractionPart _ _ _ _).trans ((List.suffix_cons _ _).trans hmore))
            herror
        · exact .of_within ((within_afterDigits _ _ _ _).trans hmore) herror

/-- A word, a string or a number: something is read after the character that begins it. -/
theorem looked_of_bind {β γ : Type} {left : β → List Char} {x : Except Halt β} {f : β → γ} {c : Char}
    {s : List Char} {h : Halt} (hx : Within left s x)
    (herror : (x >>= fun b => pure (f b)) = .error h) : h.Looked (c :: s) := by
  rcases bind_error_iff.1 herror with hx' | ⟨b, -, hb⟩
  · exact .of_within hx hx'
  · cases hb

theorem looked_plainValue {s : List Char} {h : Halt} (herror : plainValue s = .error h) :
    h.Looked s := by
  cases s with
  | nil =>
    cases herror
    exact .inl Nat.one_pos
  | cons c s =>
    unfold plainValue at herror
    dsimp only at herror
    split at herror
    · exact looked_of_bind (within_ident _ s) herror
    · exact looked_of_bind (within_ident _ s) herror
    · exact looked_of_bind (within_ident _ s) herror
    · exact looked_of_bind (within_stringBody s) herror
    · exact looked_of_bind (within_numberBody _ s) herror
    · split at herror
      · rename_i hc
        rcases bind_error_iff.1 herror with hnumber | ⟨n, -, hn⟩
        · exact looked_numberBody hc hnumber
        · cases hn
      · cases herror
        exact .inl Nat.one_pos

/-! ## Whole texts -/

theorem looked_valueWith {turns : Nat} {inner : Option (Reader Value)}
    (hinner : ∀ item ∈ inner, ∀ s, Within Prod.snd s (item s)) {s : List Char} {h : Halt}
    (herror : valueWith turns inner s = .error h) : h.Looked s := by
  have hs := skipBlanks_suffix s
  unfold valueWith at herror
  split at herror
  · rename_i q hq
    rw [hq] at hs
    refine Halt.Looked.trans ?_ hs
    cases inner with
    | none =>
      cases herror
      exact .inl Nat.one_pos
    | some item => exact looked_of_bind (within_elements (hinner item rfl) turns true q) herror
  · rename_i q hq
    rw [hq] at hs
    refine Halt.Looked.trans ?_ hs
    cases inner with
    | none =>
      cases herror
      exact .inl Nat.one_pos
    | some item =>
      exact looked_of_bind (within_members (within_addMember (hinner item rfl)) turns true [] q)
        herror
  · exact (looked_plainValue herror).trans hs

theorem looked_value {turns depth : Nat} {s : List Char} {h : Halt}
    (herror : value turns depth s = .error h) : h.Looked s := by
  cases depth with
  | zero =>
    refine looked_valueWith ?_ herror
    rintro item ⟨⟩
  | succ depth =>
    refine looked_valueWith ?_ herror
    rintro item ⟨⟩
    exact within_value turns depth

/-- **A text that is refused has been looked at.** -/
theorem looked_of_read {text : String} {h : Halt} (herror : Value.read text = .error h) :
    h.Looked text.toList := by
  rcases bind_error_iff.1 herror with hvalue | ⟨⟨v, s⟩, -, hrest⟩
  · exact looked_value hvalue
  · dsimp only at hrest
    split at hrest
    · cases hrest
    · cases hrest
      exact .inl Nat.one_pos

end MarkupTree.Json

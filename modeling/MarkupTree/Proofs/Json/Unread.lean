import MarkupTree.Json.Reader
import MarkupTree.Proofs.Outcome

/-!
# What readers leave unread

A reader leaves an end of the text that it is given, and where it stops it looks at one (`Within`).
Each reader has this from the readers that it is made of (`Within.bind`); the walks through
containers have it from the reader of an item or the step for a member (`within_elements`,
`within_members`). So values are read from within the text (`within_value`), and a walk through an
array finds no more elements than there are characters (`length_lt_of_elements`): whether it comes
to the end does not hang on the turns that it is given (`elements_of_length_lt`).
-/

namespace MarkupTree.Json

variable {α β : Type}

/-- What is unread where a reader stops. -/
def Halt.unread : Halt → List Char
  | .flaw _ s _ => s
  | .mismatch _ s _ => s

/-- What is left unread of `s` is an end of it, and also what is unread where a reader stops; `left`
is what an answer leaves. -/
def Within (left : α → List Char) (s : List Char) : Except Halt α → Prop
  | .ok a => left a <:+ s
  | .error h => h.unread <:+ s

namespace Within

variable {left : α → List Char} {left' : β → List Char} {s t : List Char}

theorem trans {x : Except Halt α} (h : Within left t x) (hts : t <:+ s) : Within left s x := by
  cases x with
  | ok a => exact List.IsSuffix.trans h hts
  | error e => exact List.IsSuffix.trans h hts

/-- A step that goes on from what the one before it leaves. -/
theorem bind {x : Except Halt α} {f : α → Except Halt β} (h : Within left s x)
    (hf : ∀ a, x = .ok a → Within left' (left a) (f a)) : Within left' s (x >>= f) := by
  cases x with
  | ok a => exact (hf a rfl).trans h
  | error e => exact h

end Within

theorem skipBlanks_suffix (s : List Char) : skipBlanks s <:+ s := List.dropWhile_suffix _

/-! ## Numbers -/

theorem gather_suffix (bound n count : Nat) (s : List Char) :
    (gather bound n count s).2.2 <:+ s := by
  induction s generalizing n count with
  | nil => exact List.suffix_rfl
  | cons c s ih =>
    unfold gather
    split
    · exact (ih _ _).trans (List.suffix_cons c s)
    · exact List.suffix_rfl

theorem within_signedNumber (negative : Bool) (x : Option Float) (rest : List Char) :
    Within Prod.snd rest (signedNumber negative x rest) := by
  unfold signedNumber
  split <;> exact List.suffix_rfl

theorem within_integerNumber (negative : Bool) (n : Nat) (rest : List Char) :
    Within Prod.snd rest (integerNumber negative n rest) := by
  unfold integerNumber
  split
  · split
    · exact List.suffix_rfl
    · exact within_signedNumber _ _ _
  · exact List.suffix_rfl

theorem within_exponentPart (negative : Bool) (significand : Nat) (shift : Int) (s : List Char) :
    Within Prod.snd s (exponentPart negative significand shift s) := by
  unfold exponentPart
  split
  rename_i down r hsign
  have hr : r <:+ s := by
    split at hsign <;> cases hsign
    · exact List.suffix_cons _ _
    · exact List.suffix_cons _ _
    · exact List.suffix_rfl
  refine Within.trans ?_ hr
  cases r with
  | nil => exact List.suffix_rfl
  | cons c q =>
    have hrest := gather_suffix maxExponent 0 0 (c :: q)
    dsimp only
    split
    · exact List.suffix_rfl
    · split
      · split
        · exact hrest
        · exact (within_signedNumber _ _ _).trans ((List.dropWhile_suffix _).trans hrest)
      · exact (within_signedNumber _ _ _).trans hrest

theorem within_afterDigits (negative : Bool) (significand : Nat) (shift : Int) (s : List Char) :
    Within Prod.snd s (afterDigits negative significand shift s) := by
  unfold afterDigits
  split
  · exact (within_exponentPart _ _ _ _).trans (List.suffix_cons _ _)
  · exact (within_exponentPart _ _ _ _).trans (List.suffix_cons _ _)
  · exact within_signedNumber _ _ _

theorem within_fractionPart (negative : Bool) (significand shift : Nat) (s : List Char) :
    Within Prod.snd s (fractionPart negative significand shift s) := by
  unfold fractionPart
  have hrest := gather_suffix maxSignificand significand 0 s
  generalize gather maxSignificand significand 0 s = gathered at hrest
  obtain ⟨n, count, rest⟩ := gathered
  dsimp only at hrest ⊢
  split
  · exact (within_afterDigits _ _ _ _).trans ((List.dropWhile_suffix _).trans hrest)
  · split
    · exact hrest
    · exact (within_afterDigits _ _ _ _).trans hrest

theorem within_afterInteger (negative : Bool) (n : Nat) (s : List Char) :
    Within Prod.snd s (afterInteger negative n s) := by
  unfold afterInteger
  split
  · exact (within_fractionPart _ _ _ _).trans (List.suffix_cons _ _)
  · exact (within_exponentPart _ _ _ _).trans (List.suffix_cons _ _)
  · exact (within_exponentPart _ _ _ _).trans (List.suffix_cons _ _)
  · exact within_integerNumber _ _ _

theorem within_numberBody (negative : Bool) (s : List Char) :
    Within Prod.snd s (numberBody negative s) := by
  unfold numberBody
  split
  · exact List.suffix_rfl
  · split
    · exact List.suffix_cons _ _
    · exact (within_afterInteger _ _ _).trans (List.suffix_cons _ _)
  · rename_i c q _
    have hrest := gather_suffix maxSignificand 0 0 (c :: q)
    generalize gather maxSignificand 0 0 (c :: q) = gathered at hrest
    obtain ⟨n, count, rest⟩ := gathered
    have hmore := (List.dropWhile_suffix Char.isDigit).trans hrest
    dsimp only at hrest hmore ⊢
    split
    · exact List.suffix_rfl
    · split
      · exact (within_afterInteger _ _ _).trans hrest
      · split
        · rename_i hdot
          rw [hdot] at hmore
          exact (within_fractionPart _ _ _ _).trans ((List.suffix_cons _ _).trans hmore)
        · exact (within_afterDigits _ _ _ _).trans hmore

/-! ## Strings -/

theorem within_takeUnit (pairing : Pairing) (high : Option Nat) (code : Nat) (rest : List Char) :
    Within (fun _ => rest) rest (takeUnit pairing high code rest) := by
  unfold takeUnit
  split
  · exact List.suffix_rfl
  · split <;> exact List.suffix_rfl
  · split
    · exact List.suffix_rfl
    · split <;> exact List.suffix_rfl

theorem within_takeDigit (pairing : Pairing) (count code : Nat) (high : Option Nat) (c : Char)
    (rest : List Char) :
    Within (fun _ => rest) (c :: rest) (takeDigit pairing count code high c rest) := by
  unfold takeDigit
  split
  · split
    · exact List.suffix_cons _ _
    · exact (within_takeUnit _ _ _ _).trans (List.suffix_cons _ _)
  · split
    · exact List.nil_suffix
    · exact List.suffix_rfl

theorem within_take (pairing : Pairing) (c : Char) (rest : List Char) (mode : Mode) :
    Within (fun _ => rest) (c :: rest) (mode.take pairing c rest) := by
  unfold Mode.take
  split
  · split
    · exact List.suffix_cons _ _
    · split
      · exact List.suffix_rfl
      · exact List.suffix_cons _ _
  · split
    · exact List.suffix_cons _ _
    · split
      · exact List.suffix_cons _ _
      · exact List.suffix_rfl
  · exact within_takeDigit _ _ _ _ _ _
  · split
    · exact List.suffix_cons _ _
    · exact List.suffix_rfl
  · split
    · exact List.suffix_cons _ _
    · exact List.suffix_rfl

theorem within_stringFrom (pairing : Pairing) (mode : Mode) (gained s : List Char) :
    Within Prod.snd s (stringFrom pairing mode gained s) := by
  induction s generalizing mode gained with
  | nil => exact List.suffix_rfl
  | cons c rest ih =>
    unfold stringFrom
    split
    · exact List.suffix_cons _ _
    · have htake := within_take pairing c rest mode
      split
      · exact (ih _ _).trans (List.suffix_cons _ _)
      · rename_i h htaken
        rwa [htaken] at htake

theorem within_stringBody (s : List Char) : Within Prod.snd s (stringBody s) :=
  within_stringFrom _ _ _ _

/-! ## Values without parts -/

theorem within_ident (expected s : List Char) : Within id s (ident expected s) := by
  induction expected generalizing s with
  | nil => exact List.suffix_rfl
  | cons e es ih =>
    cases s with
    | nil => exact List.suffix_rfl
    | cons c s =>
      unfold ident
      split
      · exact (ih s).trans (List.suffix_cons _ _)
      · exact List.suffix_rfl

theorem within_plainValue (s : List Char) : Within Prod.snd s (plainValue s) := by
  cases s with
  | nil => exact List.suffix_rfl
  | cons c s =>
    have hword : ∀ (expected : List Char) (v : Value),
        Within Prod.snd (c :: s) (ident expected s >>= fun r => pure (v, r)) := fun _ _ =>
      Within.trans ((within_ident _ s).bind fun _ _ => List.suffix_rfl) (List.suffix_cons _ _)
    unfold plainValue
    dsimp only
    split
    · exact hword _ _
    · exact hword _ _
    · exact hword _ _
    · refine Within.trans ?_ (List.suffix_cons _ _)
      exact (within_stringBody s).bind fun _ _ => List.suffix_rfl
    · refine Within.trans ?_ (List.suffix_cons _ _)
      exact (within_numberBody _ s).bind fun _ _ => List.suffix_rfl
    · split
      · exact (within_numberBody _ (c :: s)).bind fun _ _ => List.suffix_rfl
      · exact List.suffix_rfl

/-! ## Walks through containers -/

theorem within_nextElement (first : Bool) (s : List Char) :
    Within Prod.snd s (nextElement first s) := by
  have hs := skipBlanks_suffix s
  unfold nextElement
  split
  · exact List.nil_suffix
  · rename_i c q hq
    rw [hq] at hs
    refine Within.trans ?_ hs
    split
    · exact List.suffix_rfl
    · split
      · exact List.suffix_rfl
      · split
        · have hq := (skipBlanks_suffix q).trans (List.suffix_cons c q)
          split
          · exact List.nil_suffix
          · rename_i hd
            rw [hd] at hq
            split <;> exact hq
        · exact List.suffix_rfl

theorem within_nextKey (first : Bool) (s : List Char) : Within Prod.snd s (nextKey first s) := by
  have hkey : ∀ (c : Char) (q : List Char), Within Prod.snd (c :: q)
      (stringBody q >>= fun x => pure (some x.1, x.2) : Except Halt (Option String × List Char)) :=
    fun _ q => Within.trans ((within_stringBody q).bind fun _ _ => List.suffix_rfl)
      (List.suffix_cons _ _)
  have hs := skipBlanks_suffix s
  unfold nextKey
  split
  · exact List.nil_suffix
  · rename_i c q hq
    rw [hq] at hs
    refine Within.trans ?_ hs
    split
    · exact List.suffix_rfl
    · split
      · split
        · exact hkey _ _
        · exact List.suffix_rfl
      · split
        · have hq := (skipBlanks_suffix q).trans (List.suffix_cons c q)
          split
          · exact List.nil_suffix
          · rename_i d r hd
            rw [hd] at hq
            refine Within.trans ?_ hq
            split
            · exact hkey _ _
            · split <;> exact List.suffix_rfl
        · exact List.suffix_rfl

theorem within_colon (s : List Char) : Within id s (colon s) := by
  have hs := skipBlanks_suffix s
  unfold colon
  split
  · exact List.nil_suffix
  · rename_i c q hq
    rw [hq] at hs
    refine Within.trans ?_ hs
    split
    · exact List.suffix_cons _ _
    · exact List.suffix_rfl

theorem within_elements {item : Reader α} (hitem : ∀ s, Within Prod.snd s (item s))
    (turns : Nat) (first : Bool) (s : List Char) :
    Within Prod.snd s (elements item turns first s) := by
  induction turns generalizing first s with
  | zero => exact List.suffix_rfl
  | succ turns ih =>
    refine (within_nextElement first s).bind fun ⟨more, q⟩ _ => ?_
    cases more with
    | false => exact List.drop_suffix 1 q
    | true =>
      refine (hitem q).bind fun ⟨a, r⟩ _ => ?_
      exact (ih false r).bind fun _ _ => List.suffix_rfl

theorem within_members {step : β → String → Reader β}
    (hstep : ∀ acc k s, Within Prod.snd s (step acc k s)) (turns : Nat) (first : Bool) (acc : β)
    (s : List Char) : Within Prod.snd s (members step turns first acc s) := by
  induction turns generalizing first acc s with
  | zero => exact List.suffix_rfl
  | succ turns ih =>
    refine (within_nextKey first s).bind fun ⟨key, q⟩ _ => ?_
    cases key with
    | none => exact List.drop_suffix 1 q
    | some k => exact (hstep acc k q).bind fun ⟨next, r⟩ _ => ih false next r

theorem within_addMember {item : Reader α} (hitem : ∀ s, Within Prod.snd s (item s))
    (acc : List (String × α)) (k : String) (s : List Char) :
    Within Prod.snd s (addMember item acc k s) := by
  refine (within_colon s).bind fun q _ => ?_
  exact (hitem q).bind fun _ _ => List.suffix_rfl

/-! ## Values -/

theorem within_valueWith (turns : Nat) {inner : Option (Reader Value)}
    (hinner : ∀ item ∈ inner, ∀ s, Within Prod.snd s (item s)) (s : List Char) :
    Within Prod.snd s (valueWith turns inner s) := by
  have hs := skipBlanks_suffix s
  unfold valueWith
  split
  · rename_i q hq
    rw [hq] at hs
    refine Within.trans ?_ hs
    cases inner with
    | none => exact List.suffix_rfl
    | some item =>
      refine Within.trans ?_ (List.suffix_cons _ q)
      exact (within_elements (hinner item rfl) turns true q).bind fun _ _ => List.suffix_rfl
  · rename_i q hq
    rw [hq] at hs
    refine Within.trans ?_ hs
    cases inner with
    | none => exact List.suffix_rfl
    | some item =>
      refine Within.trans ?_ (List.suffix_cons _ q)
      exact (within_members (within_addMember (hinner item rfl)) turns true [] q).bind
        fun _ _ => List.suffix_rfl
  · exact (within_plainValue _).trans hs

/-- **A value is read from within the text.** -/
theorem within_value (turns depth : Nat) (s : List Char) :
    Within Prod.snd s (value turns depth s) := by
  induction depth generalizing s with
  | zero =>
    refine within_valueWith turns ?_ s
    rintro item ⟨⟩
  | succ depth ih =>
    refine within_valueWith turns ?_ s
    rintro item ⟨⟩
    exact ih

/-! ## Turns -/

/-- Between elements there is a comma. -/
theorem length_lt_of_nextElement {s q : List Char} {more : Bool}
    (h : nextElement false s = .ok (more, q)) : q.length + more.toNat ≤ s.length ∧ 0 < q.length := by
  have hs := (skipBlanks_suffix s).length_le
  unfold nextElement at h
  split at h
  · cases h
  · rename_i c r hr
    rw [hr, List.length_cons] at hs
    split at h
    · cases h
      exact ⟨hs, Nat.succ_pos _⟩
    · split at h
      · cases ‹false = true›
      · split at h
        · have hlength := (skipBlanks_suffix r).length_le
          split at h
          · cases h
          · rename_i d hd
            rw [hd] at hlength
            split at h
            · cases h
            · cases h
              exact ⟨Nat.le_trans (Nat.succ_le_succ hlength) hs, Nat.succ_pos _⟩
        · cases h

theorem length_lt_of_elements {item : Reader α} (hitem : ∀ s, Within Prod.snd s (item s))
    {turns : Nat} {s r : List Char} {as : List α}
    (h : elements item turns false s = .ok (as, r)) : as.length < s.length := by
  induction turns generalizing s as with
  | zero => cases h
  | succ turns ih =>
    obtain ⟨⟨more, q⟩, hnext, h⟩ := bind_ok_iff.1 h
    obtain ⟨hlength, hpos⟩ := length_lt_of_nextElement hnext
    cases more with
    | false =>
      cases h
      exact Nat.lt_of_lt_of_le hpos hlength
    | true =>
      obtain ⟨⟨a, q'⟩, ha, h⟩ := bind_ok_iff.1 h
      obtain ⟨⟨bs, r'⟩, hbs, h⟩ := bind_ok_iff.1 h
      cases h
      have hq := hitem q
      rw [ha] at hq
      have hrest : q'.length ≤ q.length := List.IsSuffix.length_le hq
      have hmore := ih hbs
      rw [Bool.toNat_true] at hlength
      rw [List.length_cons]
      omega

/-- A walk to the end of an array may be given any number of turns that is enough for the elements.
-/
theorem elements_of_length_lt {item : Reader α} {turns turns' : Nat} {first : Bool}
    {s r : List Char} {as : List α} (h : elements item turns first s = .ok (as, r))
    (hturns : as.length < turns') : elements item turns' first s = .ok (as, r) := by
  induction turns generalizing turns' first s as with
  | zero => cases h
  | succ turns ih =>
    obtain ⟨t, rfl⟩ := Nat.exists_eq_add_one_of_ne_zero (Nat.ne_zero_of_lt hturns)
    obtain ⟨⟨more, q⟩, hnext, h⟩ := bind_ok_iff.1 h
    rw [elements, hnext, ok_bind]
    cases more with
    | false => exact h
    | true =>
      obtain ⟨⟨a, q'⟩, ha, h⟩ := bind_ok_iff.1 h
      obtain ⟨⟨bs, r'⟩, hbs, h⟩ := bind_ok_iff.1 h
      cases h
      have hmore := ih hbs (Nat.lt_of_succ_lt_succ hturns)
      simp only [if_true, ha, ok_bind, hmore]
      rfl

end MarkupTree.Json

import MarkupTree.Proofs.Json.Measure
import MarkupTree.Proofs.Json.StringLiteral

/-!
# Reading written values

A written value is read as itself, in front of whatever may follow a value, but for the numbers in
it, which may be read as others (`value_before_mapNumbers`). A whole text is read by a reader that
goes `maxDepth` deep and takes as many turns as there are characters, which are enough for every
value that nests no deeper (`read_text_mapNumbers`). Integers are read as themselves, and so is a
value with no other numbers (`read_text`): doubles are rounded twice.

The walks through containers have the reader of an item, or the step for a member, as a parameter
(`elements_itemsBefore`, `members_membersBefore`); two walks with steps that read alike stay in step
(`members_related`). How deep the reader might have gone does not matter to a value that it has
read: every depth is enough that is enough for the value (`value_of_depth_le`).
-/

namespace MarkupTree.Json

open Value

/-! ## How written values begin and end -/

/-- A text that begins like a value: with no blank, and not with the end of an array. -/
def Opens (s : List Char) : Prop := ∃ c q, s = c :: q ∧ isBlank c = false ∧ c ≠ ']'

theorem Value.Readable.opens {f : Number → Number} {turns depth : Nat} {v : Value}
    (h : Readable (fun n => n.ReadsAs (f n)) turns depth v) (rest : List Char) :
    Opens (v.before rest) := by
  cases h with
  | null => exact ⟨'n', _, rfl, rfl, by decide⟩
  | bool b => cases b <;> exact ⟨_, _, rfl, rfl, by decide⟩
  | number hn =>
    obtain ⟨c, q, hq, hc⟩ := hn.opens
    refine ⟨c, q ++ rest, by rw [before, hq, List.cons_append], ?_, ?_⟩
    · simp only [isBlank, Bool.or_eq_false_iff, decide_eq_false_iff_not]
      refine ⟨⟨⟨?_, ?_⟩, ?_⟩, ?_⟩ <;> rintro rfl <;> exact absurd hc (by decide)
    · rintro rfl
      exact absurd hc (by decide)
  | string s => exact ⟨'"', _, rfl, rfl, by decide⟩
  | @array _ items _ _ => cases items <;> exact ⟨'[', _, rfl, rfl, by decide⟩
  | @object _ ms _ _ => cases ms <;> exact ⟨'\x7b', _, rfl, rfl, by decide⟩

theorem skipBlanks_cons {c : Char} (h : isBlank c = false) (s : List Char) :
    skipBlanks (c :: s) = c :: s := by
  simp [skipBlanks, h]

theorem Ends.itemsBefore (rest : List Char) (vs : List Value) :
    Ends (itemsBefore (']' :: rest) vs) := by
  cases vs with
  | nil => exact .list rest
  | cons v vs => exact .comma _

theorem Ends.membersBefore (rest : List Char) (ms : List (String × Value)) :
    Ends (membersBefore ('\x7d' :: rest) ms) := by
  cases ms with
  | nil => exact .object rest
  | cons e ms => exact .comma _

/-! ## Walks through arrays -/

section Elements

variable {item : Reader Value}

theorem elements_end (turns : Nat) (first : Bool) (rest : List Char) :
    elements item (turns + 1) first (']' :: rest) = .ok ([], rest) := rfl

theorem elements_step {first : Bool} {s q r : List Char} {v : Value} (turns : Nat)
    (hnext : nextElement first s = .ok (true, q)) (hitem : item q = .ok (v, r)) :
    elements item (turns + 1) first s =
      elements item turns false r >>= fun more => .ok (v :: more.1, more.2) := by
  rw [elements, hnext, ok_bind]
  simp only [if_true, hitem, ok_bind]
  rfl

theorem nextElement_first {s : List Char} (h : Opens s) : nextElement true s = .ok (true, s) := by
  obtain ⟨c, q, rfl, hblank, hc⟩ := h
  simp [nextElement, skipBlanks_cons hblank, hc]

theorem nextElement_comma {s : List Char} (h : Opens s) :
    nextElement false (',' :: s) = .ok (true, s) := by
  obtain ⟨c, q, rfl, hblank, hc⟩ := h
  rw [nextElement, skipBlanks_cons rfl]
  simp [skipBlanks_cons hblank, hc]

/-- Further items are read to the end of the array, each `v` as `g v`. -/
theorem elements_itemsBefore {vs : List Value} {g : Value → Value}
    (hopens : ∀ v ∈ vs, ∀ r, Opens (v.before r))
    (hitem : ∀ v ∈ vs, ∀ r, Ends r → item (v.before r) = .ok (g v, r)) {turns : Nat}
    (hturns : vs.length < turns) (rest : List Char) :
    elements item turns false (itemsBefore (']' :: rest) vs) = .ok (vs.map g, rest) := by
  induction vs generalizing turns with
  | nil =>
    obtain ⟨t, rfl⟩ := Nat.exists_eq_add_one_of_ne_zero (Nat.ne_zero_of_lt hturns)
    exact elements_end t false rest
  | cons v vs ih =>
    rw [List.length_cons] at hturns
    obtain ⟨t, rfl⟩ := Nat.exists_eq_add_one_of_ne_zero (Nat.ne_zero_of_lt hturns)
    have hmore := ih (fun w hw => hopens w (List.mem_cons_of_mem _ hw))
      (fun w hw => hitem w (List.mem_cons_of_mem _ hw)) (Nat.lt_of_succ_lt_succ hturns)
    rw [Value.itemsBefore, elements_step t (nextElement_comma (hopens v List.mem_cons_self _))
      (hitem v List.mem_cons_self _ (.itemsBefore rest vs)), hmore]
    rfl

end Elements

/-! ## Walks through objects -/

section Members

variable {σ : Type} {step : σ → String → Reader σ}

theorem members_end (turns : Nat) (first : Bool) (acc : σ) (rest : List Char) :
    members step (turns + 1) first acc ('\x7d' :: rest) = .ok (acc, rest) := rfl

theorem members_step {first : Bool} {s q r : List Char} {k : String} {acc next : σ} (turns : Nat)
    (hkey : nextKey first s = .ok (some k, q)) (hstep : step acc k q = .ok (next, r)) :
    members step (turns + 1) first acc s = members step turns false next r := by
  rw [members, hkey, ok_bind]
  simp [hstep]

theorem nextKey_first (k : String) (rest : List Char) :
    nextKey true (stringBefore k rest) = .ok (some k, rest) := by
  change stringBody (k.toList.flatMap escapedChar ++ '"' :: rest) >>= _ = _
  rw [stringBody_escaped]
  rfl

theorem nextKey_comma (k : String) (rest : List Char) :
    nextKey false (',' :: stringBefore k rest) = .ok (some k, rest) := by
  change stringBody (k.toList.flatMap escapedChar ++ '"' :: rest) >>= _ = _
  rw [stringBody_escaped]
  rfl

/-- Further members are read to the end of the object if the step for each of them adds it. -/
theorem members_membersBefore {ms : List (String × Value)} (add : σ → String × Value → σ)
    (hstep : ∀ e ∈ ms, ∀ acc r, Ends r → step acc e.1 (':' :: e.2.before r) = .ok (add acc e, r))
    {turns : Nat} (hturns : ms.length < turns) (acc : σ) (rest : List Char) :
    members step turns false acc (membersBefore ('\x7d' :: rest) ms) =
      .ok (ms.foldl add acc, rest) := by
  induction ms generalizing turns acc with
  | nil =>
    obtain ⟨t, rfl⟩ := Nat.exists_eq_add_one_of_ne_zero (Nat.ne_zero_of_lt hturns)
    exact members_end t false acc rest
  | cons e ms ih =>
    rw [List.length_cons] at hturns
    obtain ⟨t, rfl⟩ := Nat.exists_eq_add_one_of_ne_zero (Nat.ne_zero_of_lt hturns)
    rw [Value.membersBefore, members_step t (nextKey_comma _ _)
      (hstep e List.mem_cons_self acc _ (.membersBefore rest ms))]
    exact ih (fun d hd => hstep d (List.mem_cons_of_mem _ hd)) (by omega) _

/-- **Two walks in step.** Where the step of the one is matched by a step of the other that reads as
far, the walk of the one is matched by that of the other, and the outcomes are related as all the
states between are. -/
theorem members_related {τ : Type} {step' : τ → String → Reader τ} {R : σ → τ → Prop}
    (hstep : ∀ {acc acc' k s next r}, R acc acc' → step acc k s = .ok (next, r) →
      ∃ next', step' acc' k s = .ok (next', r) ∧ R next next')
    {turns : Nat} {first : Bool} {acc last : σ} {acc' : τ} {s r : List Char} (hR : R acc acc')
    (h : members step turns first acc s = .ok (last, r)) :
    ∃ last', members step' turns first acc' s = .ok (last', r) ∧ R last last' := by
  induction turns generalizing first acc acc' s with
  | zero => cases h
  | succ turns ih =>
    rw [members] at h
    obtain ⟨⟨key, q⟩, hkey, h⟩ := bind_ok_iff.1 h
    cases key with
    | none =>
      cases h
      exact ⟨acc', by rw [members, hkey]; rfl, hR⟩
    | some k =>
      obtain ⟨⟨next, q'⟩, hnext, h⟩ := bind_ok_iff.1 h
      obtain ⟨next', hnext', hR'⟩ := hstep hR hnext
      obtain ⟨last', hlast', hR'⟩ := ih hR' h
      exact ⟨last', (members_step turns hkey hnext').trans hlast', hR'⟩

theorem addMember_before {item : Reader Value} {v w : Value} {r : List Char}
    (hitem : item (v.before r) = .ok (w, r)) (acc : List (String × Value)) (k : String) :
    addMember item acc k (':' :: v.before r) = .ok ((k, w) :: acc, r) := by
  change item (v.before r) >>= _ = _
  rw [hitem]
  rfl

end Members

/-! ## Values -/

theorem beginning (s : List Char) : (∃ q, skipBlanks s = '[' :: q) ∨
    (∃ q, skipBlanks s = '\x7b' :: q) ∨
    ((∀ q, skipBlanks s ≠ '[' :: q) ∧ ∀ q, skipBlanks s ≠ '\x7b' :: q) := by
  by_cases harray : ∃ q, skipBlanks s = '[' :: q
  · exact .inl harray
  · by_cases hobject : ∃ q, skipBlanks s = '\x7b' :: q
    · exact .inr (.inl hobject)
    · exact .inr (.inr ⟨not_exists.1 harray, not_exists.1 hobject⟩)

theorem valueWith_other {turns : Nat} {inner : Option (Reader Value)} {s : List Char}
    (harray : ∀ q, skipBlanks s ≠ '[' :: q) (hobject : ∀ q, skipBlanks s ≠ '\x7b' :: q) :
    valueWith turns inner s = plainValue (skipBlanks s) := by
  unfold valueWith
  split
  · exact absurd ‹_› (harray _)
  · exact absurd ‹_› (hobject _)
  · rfl

theorem valueWith_plain {turns : Nat} {inner : Option (Reader Value)} {c : Char} {s : List Char}
    (hblank : isBlank c = false) (harray : c ≠ '[') (hobject : c ≠ '\x7b') :
    valueWith turns inner (c :: s) = plainValue (c :: s) := by
  have hskip := skipBlanks_cons hblank s
  rw [valueWith_other, hskip]
  · exact fun q hq => harray (List.cons.inj (hskip.symm.trans hq)).1
  · exact fun q hq => hobject (List.cons.inj (hskip.symm.trans hq)).1

theorem value_plain {turns depth : Nat} {c : Char} {s : List Char} (hblank : isBlank c = false)
    (harray : c ≠ '[') (hobject : c ≠ '\x7b') :
    value turns depth (c :: s) = plainValue (c :: s) := by
  cases depth <;> exact valueWith_plain hblank harray hobject

/-- **A written value is read as itself, but for its numbers**, in front of whatever may follow it:
`f n` stands in the place of each number `n` if that is what the number is read as. -/
theorem value_before_mapNumbers {f : Number → Number} {turns depth : Nat} {v : Value}
    (h : Readable (fun n => n.ReadsAs (f n)) turns depth v) {rest : List Char} (hrest : Ends rest) :
    value turns depth (v.before rest) = .ok (v.mapNumbers f, rest) := by
  induction h generalizing rest with
  | null => exact value_plain rfl (by decide) (by decide)
  | bool b => cases b <;> exact value_plain rfl (by decide) (by decide)
  | number hn =>
    obtain ⟨c, q, hq, hc⟩ := hn.opens
    obtain ⟨_, _, heq, hblank, -⟩ :=
      (Readable.number hn : Readable (fun n => n.ReadsAs (f n)) turns 0 _).opens rest
    rw [before, hq, List.cons_append] at heq ⊢
    obtain ⟨rfl, -⟩ := List.cons.inj heq
    rw [value_plain hblank, ← List.cons_append, ← hq, hn.reads hrest.numberEnds, mapNumbers]
    all_goals
      rintro rfl
      exact absurd hc (by decide)
  | string s =>
    rw [before, stringBefore, List.cons_append, value_plain rfl (by decide) (by decide), plainValue,
      stringBody_escaped]
    rfl
  | @array depth items hlength h ih =>
    obtain ⟨t, rfl⟩ := Nat.exists_eq_add_one_of_ne_zero (Nat.ne_zero_of_lt hlength)
    cases items with
    | nil => rfl
    | cons v vs =>
      rw [List.length_cons] at hlength
      rw [before, mapNumbers_array]
      change elements (value (t + 1) depth) (t + 1) true _ >>= _ = _
      rw [elements_step t (nextElement_first ((h v List.mem_cons_self).opens _))
        (ih v List.mem_cons_self (.itemsBefore rest vs)),
        elements_itemsBefore (fun w hw => (h w (List.mem_cons_of_mem _ hw)).opens)
          (fun w hw r hr => ih w (List.mem_cons_of_mem _ hw) hr) (by omega)]
      rfl
  | @object depth ms hlength h ih =>
    obtain ⟨t, rfl⟩ := Nat.exists_eq_add_one_of_ne_zero (Nat.ne_zero_of_lt hlength)
    cases ms with
    | nil => rfl
    | cons e ms =>
      rw [List.length_cons] at hlength
      rw [before, mapNumbers_object]
      change members (addMember (value (t + 1) depth)) (t + 1) true [] _ >>= _ = _
      rw [members_step t (nextKey_first _ _)
        (addMember_before (ih e List.mem_cons_self (.membersBefore rest ms)) [] e.1),
        members_membersBefore (fun acc e => Prod.map id (mapNumbers f) e :: acc)
          (fun d hd acc r hr => addMember_before (ih d (List.mem_cons_of_mem _ hd) hr) acc d.1)
          (by omega)]
      -- The walk collects the members in reverse order.
      have hmembers : (ms.foldl (fun acc e => Prod.map id (mapNumbers f) e :: acc)
          [Prod.map id (mapNumbers f) e]).reverse = (e :: ms).map (Prod.map id (mapNumbers f)) := by
        rw [← List.foldl_map (f := Prod.map id (mapNumbers f)) (g := fun acc e => e :: acc),
          List.foldl_flip_cons_eq_append', List.reverse_append, List.reverse_reverse]
        rfl
      exact congrArg (fun ms => Except.ok (Value.object ms, rest)) hmembers

/-- **A written value is read as itself** if the numbers in it are. -/
theorem value_before {turns depth : Nat} {v : Value}
    (h : Readable (fun n => n.ReadsAs n) turns depth v) {rest : List Char} (hrest : Ends rest) :
    value turns depth (v.before rest) = .ok (v, rest) := by
  have hreads := value_before_mapNumbers (f := id) h hrest
  rwa [mapNumbers_id] at hreads

/-- **The text of a value is read as the value, but for its numbers**, if containers in it nest no
deeper than the reader goes. -/
theorem read_text_mapNumbers {f : Number → Number} {v : Value}
    (h : v.Every fun n => n.ReadsAs (f n)) (hdepth : v.depth ≤ maxDepth) :
    Value.read v.text = .ok (v.mapNumbers f) := by
  have hsize := size_le_length_before (fun n hn => hn.text_ne_nil) h []
  rw [List.length_nil] at hsize
  have hreadable : Readable (fun n => n.ReadsAs (f n)) ((v.before []).length + 1) maxDepth v :=
    readable_of h (by omega) hdepth
  have hv := value_before_mapNumbers hreadable .nil
  rw [Value.read, Value.text, String.toList_ofList, readAll, hv]
  rfl

/-- **The text of a value with integers only is read as the value.** -/
theorem read_text {v : Value} (h : v.Integral) (hdepth : v.depth ≤ maxDepth) :
    Value.read v.text = .ok v := by
  have hread := read_text_mapNumbers (f := id) (h.imp fun n hn => hn.readsAs) hdepth
  rwa [mapNumbers_id] at hread

/-! ## Depth -/

section Depth

variable {α : Type} {item item' : Reader α} {P : α → Prop}

theorem elements_of_imp (himp : ∀ {s a r}, item s = .ok (a, r) → P a → item' s = .ok (a, r))
    {turns : Nat} {first : Bool} {s r : List Char} {as : List α}
    (h : elements item turns first s = .ok (as, r)) (hP : ∀ a ∈ as, P a) :
    elements item' turns first s = .ok (as, r) := by
  induction turns generalizing first s as with
  | zero => cases h
  | succ turns ih =>
    obtain ⟨⟨more, q⟩, hnext, h⟩ := bind_ok_iff.1 h
    rw [elements, hnext, ok_bind]
    cases more with
    | false => exact h
    | true =>
      obtain ⟨⟨a, q'⟩, ha, h⟩ := bind_ok_iff.1 h
      obtain ⟨⟨bs, r'⟩, hbs, h⟩ := bind_ok_iff.1 h
      cases h
      rw [List.forall_mem_cons] at hP
      simp only [if_true, himp ha hP.1, ok_bind, ih hbs hP.2]
      rfl

/-- Members stay where they are when others are read. -/
theorem members_addMember_suffix {turns : Nat} {first : Bool} {acc ms : List (String × α)}
    {s r : List Char} (h : members (addMember item) turns first acc s = .ok (ms, r)) :
    acc <:+ ms := by
  induction turns generalizing first acc s with
  | zero => cases h
  | succ turns ih =>
    obtain ⟨⟨key, q⟩, -, h⟩ := bind_ok_iff.1 h
    cases key with
    | none =>
      cases h
      exact List.suffix_rfl
    | some k =>
      obtain ⟨⟨next, q'⟩, hnext, h⟩ := bind_ok_iff.1 h
      obtain ⟨_, -, hnext⟩ := bind_ok_iff.1 hnext
      obtain ⟨_, -, hnext⟩ := bind_ok_iff.1 hnext
      cases hnext
      exact (List.suffix_cons _ _).trans (ih h)

theorem members_of_imp (himp : ∀ {s a r}, item s = .ok (a, r) → P a → item' s = .ok (a, r))
    {turns : Nat} {first : Bool} {acc ms : List (String × α)} {s r : List Char}
    (h : members (addMember item) turns first acc s = .ok (ms, r)) (hP : ∀ e ∈ ms, P e.2) :
    members (addMember item') turns first acc s = .ok (ms, r) := by
  induction turns generalizing first acc s with
  | zero => cases h
  | succ turns ih =>
    obtain ⟨⟨key, q⟩, hkey, h⟩ := bind_ok_iff.1 h
    cases key with
    | none => rw [members, hkey]; exact h
    | some k =>
      obtain ⟨⟨next, q'⟩, hnext, h⟩ := bind_ok_iff.1 h
      obtain ⟨s', hcolon, hnext⟩ := bind_ok_iff.1 hnext
      obtain ⟨⟨a, _⟩, ha, hnext⟩ := bind_ok_iff.1 hnext
      cases hnext
      have hmem : (k, a) ∈ ms := (members_addMember_suffix h).mem List.mem_cons_self
      have hnext' : addMember item' acc k q = .ok ((k, a) :: acc, q') := by
        unfold addMember
        simp [hcolon, himp ha (hP _ hmem)]
      rw [members_step turns hkey hnext']
      exact ih h

end Depth

theorem valueWith_of_depth_le {turns depth : Nat} {inner : Option (Reader Value)}
    (hinner : ∀ item ∈ inner, ∀ {d v s r}, item s = .ok (v, r) → v.depth ≤ d →
      value turns d s = .ok (v, r)) {v : Value} {s r : List Char}
    (h : valueWith turns inner s = .ok (v, r)) (hdepth : v.depth ≤ depth) :
    value turns depth s = .ok (v, r) := by
  rcases beginning s with ⟨q, hq⟩ | ⟨q, hq⟩ | ⟨harray, hobject⟩
  · rw [valueWith, hq] at h
    cases inner with
    | none => cases h
    | some item =>
      obtain ⟨⟨items, q'⟩, hitems, h⟩ := bind_ok_iff.1 h
      cases h
      obtain ⟨d, rfl⟩ := Nat.exists_eq_add_one_of_ne_zero (Nat.ne_zero_of_lt hdepth)
      have hread : elements (value turns d) turns true q = .ok (items, r) := by
        refine elements_of_imp (hinner item rfl) hitems fun w hw => ?_
        exact Nat.le_trans (depth_le_depthAll hw) (Nat.le_of_succ_le_succ hdepth)
      rw [value, valueWith, hq]
      simp [hread]
  · rw [valueWith, hq] at h
    cases inner with
    | none => cases h
    | some item =>
      obtain ⟨⟨ms, q'⟩, hms, h⟩ := bind_ok_iff.1 h
      cases h
      obtain ⟨d, rfl⟩ := Nat.exists_eq_add_one_of_ne_zero (Nat.ne_zero_of_lt hdepth)
      have hread : members (addMember (value turns d)) turns true [] q = .ok (ms, r) := by
        refine members_of_imp (hinner item rfl) hms fun e he => ?_
        have hmem : e.2 ∈ ms.reverse.map Prod.snd :=
          List.mem_map_of_mem (List.mem_reverse.2 he)
        have hms := depth_le_depthAll hmem
        rw [← depthMembers_eq] at hms
        exact Nat.le_trans hms (Nat.le_of_succ_le_succ hdepth)
      rw [value, valueWith, hq]
      simp [hread]
  · rw [valueWith_other harray hobject] at h
    cases depth <;> exact (valueWith_other harray hobject).trans h

/-- **A value that has been read is read at every depth that is enough for it.** -/
theorem value_of_depth_le {turns depth depth' : Nat} {v : Value} {s r : List Char}
    (h : value turns depth s = .ok (v, r)) (hdepth : v.depth ≤ depth') :
    value turns depth' s = .ok (v, r) := by
  induction depth generalizing depth' v s r with
  | zero =>
    refine valueWith_of_depth_le ?_ h hdepth
    rintro item ⟨⟩
  | succ depth ih =>
    refine valueWith_of_depth_le ?_ h hdepth
    rintro item ⟨⟩
    exact ih

/-- A text is read by the reader that goes `maxDepth` deep when containers nest no deeper in it. -/
theorem read_of_depth_le {depth : Nat} {text : String} {v : Value}
    (h : readAll (fun turns => value turns depth) text.toList = .ok v)
    (hdepth : v.depth ≤ maxDepth) : Value.read text = .ok v := by
  obtain ⟨⟨w, s⟩, hvalue, hrest⟩ := bind_ok_iff.1 h
  have hwv : w = v := by
    dsimp only at hrest
    split at hrest
    · exact Except.ok.inj hrest
    · cases hrest
  subst hwv
  refine bind_ok_iff.2 ⟨(w, s), ?_, hrest⟩
  exact value_of_depth_le hvalue hdepth

end MarkupTree.Json

import MarkupTree.Interchange.DecodeText
import MarkupTree.Proofs.Json.Reader
import MarkupTree.Proofs.Json.Unread

/-!
# Reading nodes and reading values

The reader of nodes checks the type of a node while it goes through the text, and keeps the other
members for later. A reader of values goes through the same members (`Parts.Of.step`), and through
the same items of an array, so a node that was read from an object or an array is the one that the
value of it is decoded to (`reader_object`, `reader_array`). So what a text is decoded to is what
its value is decoded to (`decodeText_ok`).
-/

namespace MarkupTree

open Json

/-! ## Readers that succeed -/

namespace Json

theorem place_ok_iff {α : Type} {x : Except Mismatch α} {s r : List Char} {placed : Bool} {a : α} :
    place x s placed = .ok (a, r) ↔ x = .ok a ∧ s = r := by
  cases x <;> simp [place]

theorem stringAs_ok {α : Type} {wanted : String} {f : String → Except Mismatch α} {s r : List Char}
    {a : α} (h : stringAs wanted f s = .ok (a, r)) : ∃ name, f name = .ok a ∧
      ∀ turns depth, value turns depth s = .ok (.string name, r) := by
  unfold stringAs at h
  split at h
  · rename_i q hs
    obtain ⟨⟨name, q'⟩, hbody, h⟩ := bind_ok_iff.1 h
    obtain ⟨hname, rfl⟩ := place_ok_iff.1 h
    have hplain : plainValue ('"' :: q) = .ok (.string name, q') := by
      rw [plainValue, hbody]
      rfl
    refine ⟨name, hname, fun turns depth => ?_⟩
    cases depth <;>
      · rw [value, valueWith, hs]
        exact hplain
  · cases h

theorem addMember_ok_iff {α : Type} {item : Reader α} {acc ms : List (String × α)} {k : String}
    {s r : List Char} : addMember item acc k s = .ok (ms, r) ↔
      ∃ q v, colon s = .ok q ∧ item q = .ok (v, r) ∧ ms = (k, v) :: acc := by
  simp only [addMember, bind_ok_iff, pure_ok, Except.ok.injEq, Prod.mk.injEq, Prod.exists]
  constructor
  · rintro ⟨q, hq, v, r', hv, rfl, rfl⟩
    exact ⟨q, v, hq, hv, rfl⟩
  · rintro ⟨q, v, hq, hv, rfl⟩
    exact ⟨q, hq, v, r, hv, rfl, rfl⟩

/-- A container that was read began with a bracket. -/
theorem container_opens {α : Type} {wanted : String} {depth : Nat}
    {array object : Option (Nat → Reader α)} {s : List Char} {x : α × List Char}
    (h : container wanted depth array object s = .ok x) :
    (∃ q, skipBlanks s = '[' :: q) ∨ ∃ q, skipBlanks s = '\x7b' :: q := by
  unfold container at h
  split at h
  · cases h
  · exact .inl ⟨_, ‹_›⟩
  · cases h
  · exact .inr ⟨_, ‹_›⟩
  · cases h

theorem readAll_ok_iff {α : Type} {reader : Nat → Reader α} {text : List Char} {a : α} :
    readAll reader text = .ok a ↔
      ∃ r, reader (text.length + 1) text = .ok (a, r) ∧ skipBlanks r = [] := by
  simp only [readAll, bind_ok_iff, Prod.exists]
  constructor
  · rintro ⟨b, r, hr, h⟩
    split at h
    · cases h
      exact ⟨r, hr, ‹_›⟩
    · cases h
  · rintro ⟨r, hr, h⟩
    exact ⟨a, r, hr, by rw [h]; rfl⟩

theorem decodeWith_ok_iff {α : Type} {reader : Nat → Nat → Reader α} {text : String} {a : α} :
    decodeWith reader text = .ok a ↔
      readAll (fun turns => reader turns maxDepth) text.toList = .ok a := by
  rw [decodeWith]
  cases readAll (fun turns => reader turns maxDepth) text.toList <;> simp

end Json

namespace Node

/-! ## Members of a node -/

/-- The type has no part in what the other members make. -/
theorem decodeTextMembers_filter (seen : Option String) (ms : List (String × Value)) :
    decodeTextMembers seen (ms.filter (·.1 ≠ "type")) = decodeTextMembers seen ms := by
  induction ms generalizing seen with
  | nil => rfl
  | cons e ms ih =>
    obtain ⟨k, v⟩ := e
    by_cases hk : k = "type"
    · simp [hk, decodeTextMembers, ← ih seen]
    · rw [List.filter_cons_of_pos (by simpa using hk), decodeTextMembers, decodeTextMembers]
      simp only [ih]

theorem decodeElementMembers_filter (fields : ElementFields) (ms : List (String × Value)) :
    decodeElementMembers fields (ms.filter (·.1 ≠ "type")) = decodeElementMembers fields ms := by
  induction ms generalizing fields with
  | nil => rfl
  | cons e ms ih =>
    obtain ⟨k, v⟩ := e
    by_cases hk : k = "type"
    · simp [hk, decodeElementMembers, ← ih fields]
    · rw [List.filter_cons_of_pos (by simpa using hk), decodeElementMembers, decodeElementMembers]
      simp only [ih]

theorem ofMembers_filter (t : NodeType) (ms : List (String × Value)) :
    ofMembers t (ms.filter (·.1 ≠ "type")) = ofMembers t ms := by
  cases t with
  | element => simp only [ofMembers, decodeElementMembers_filter]
  | text => exact decodeTextMembers_filter none ms

/-- What is kept of the members `ms`, the last one first: the type if it was met, so that a decoder
that is past `ms` goes on with it, and all other members as they are. -/
structure Parts.Of (parts : Parts) (ms : List (String × Value)) : Prop where
  type : ∀ more, NodeType.ofMembers none (ms.reverse ++ more) = NodeType.ofMembers parts.type more
  members : parts.members = ms.filter (·.1 ≠ "type")

/-- A member of a node is read by a reader of values as well, and the parts are kept. -/
theorem Parts.Of.step {turns depth : Nat} {parts next : Parts} {ms : List (String × Value)}
    {k : String} {s r : List Char} (hparts : parts.Of ms)
    (h : partText turns depth parts k s = .ok (next, r)) :
    ∃ ms', addMember (value turns depth) ms k s = .ok (ms', r) ∧ next.Of ms' := by
  unfold partText at h
  split at h
  · rename_i hk
    obtain ⟨⟨_, q⟩, hplace, h⟩ := bind_ok_iff.1 h
    obtain ⟨honce, rfl⟩ := place_ok_iff.1 hplace
    obtain ⟨q, hcolon, h⟩ := bind_ok_iff.1 h
    obtain ⟨⟨t, q'⟩, hstring, h⟩ := bind_ok_iff.1 h
    cases h
    obtain ⟨name, hname, hvalue⟩ := stringAs_ok hstring
    refine ⟨_, addMember_ok_iff.2 ⟨q, .string name, hcolon, hvalue _ _, rfl⟩, fun more => ?_, ?_⟩
    · rw [List.reverse_cons, List.append_assoc, hparts.type, List.singleton_append,
        NodeType.ofMembers, if_pos hk, honce, NodeType.decode, hname]
      rfl
    · simp [hk, hparts.members]
  · rename_i hk
    obtain ⟨⟨ms', q⟩, hadd, h⟩ := bind_ok_iff.1 h
    cases h
    obtain ⟨q', v, hcolon, hvalue, rfl⟩ := addMember_ok_iff.1 hadd
    refine ⟨_, addMember_ok_iff.2 ⟨q', v, hcolon, hvalue, rfl⟩, fun more => ?_, ?_⟩
    · rw [List.reverse_cons, List.append_assoc, hparts.type, List.singleton_append,
        NodeType.ofMembers, if_neg hk]
    · simp [hk, hparts.members]

/-! ## Nodes -/

theorem objectText_ok {turns depth : Nat} {s r : List Char} {x : Except Mismatch Node}
    (h : objectText turns depth s = .ok (x, r)) :
    ∃ ms, members (addMember (value turns depth)) turns true [] s = .ok (ms, r) ∧
      decode (.object ms.reverse) = x := by
  obtain ⟨⟨parts, q⟩, hparts, h⟩ := bind_ok_iff.1 h
  have hempty : Parts.Of {} [] := ⟨fun _ => rfl, rfl⟩
  obtain ⟨ms, hms, htype, hmembers⟩ := members_related (fun hp hk => hp.step hk) hempty hparts
  cases ht : parts.type with
  | none =>
    simp only [ht] at h
    cases h
  | some t =>
    simp only [ht] at h
    cases h
    have hfound : NodeType.ofMembers none ms.reverse = .ok t := by
      simpa [ht, NodeType.ofMembers] using htype []
    refine ⟨ms, hms, ?_⟩
    rw [decode_object, hfound, ok_bind, hmembers, ← List.filter_reverse, ofMembers_filter]

/-- **A node that is read from an object is decoded from its value.** -/
theorem reader_object {turns depth : Nat} {s q r : List Char} {a : Node}
    (hs : skipBlanks s = '\x7b' :: q) (h : reader turns (depth + 1) s = .ok (a, r)) :
    ∃ v, value turns (depth + 1) s = .ok (v, r) ∧ decode v = .ok a := by
  obtain ⟨⟨x, r'⟩, hx, hplace⟩ := bind_ok_iff.1 h
  obtain ⟨rfl, rfl⟩ := place_ok_iff.1 hplace
  unfold container at hx
  rw [hs] at hx
  obtain ⟨ms, hms, hdecode⟩ := objectText_ok (mapError_ok_iff.1 hx)
  refine ⟨.object ms.reverse, ?_, hdecode⟩
  rw [value, valueWith, hs]
  change members (addMember (value turns depth)) turns true [] q >>= _ = _
  rw [hms]
  rfl

/-- What is read of an array for a node is decoded from its items. The walk for a node begins anew
after the type, but no walk needs as many turns as there are characters. -/
theorem arrayText_ok {turns depth : Nat} {s r : List Char} {x : Except Mismatch Node}
    (hturns : s.length < turns) (h : arrayText turns depth s = .ok (x, r)) :
    ∃ items, elements (value turns depth) turns true s = .ok (items, r) ∧
      decode (.array items) = x := by
  obtain ⟨⟨more, q⟩, hnext, h⟩ := bind_ok_iff.1 h
  cases more with
  | false => cases h
  | true =>
    obtain ⟨⟨t, q'⟩, hstring, h⟩ := bind_ok_iff.1 h
    obtain ⟨⟨items, r'⟩, hitems, h⟩ := bind_ok_iff.1 h
    cases h
    obtain ⟨name, hname, hvalue⟩ := stringAs_ok hstring
    have hq : q.length ≤ s.length := by
      have hwithin := within_nextElement true s
      rw [hnext] at hwithin
      exact List.IsSuffix.length_le hwithin
    have hq' : q'.length ≤ q.length := by
      have hwithin := within_value turns depth q
      rw [hvalue] at hwithin
      exact List.IsSuffix.length_le hwithin
    have hlength := length_lt_of_elements (within_value turns depth) hitems
    obtain ⟨t', rfl⟩ := Nat.exists_eq_add_one_of_ne_zero (Nat.ne_zero_of_lt hturns)
    refine ⟨.string name :: items, ?_, ?_⟩
    · rw [elements_step t' hnext (hvalue _ _), elements_of_length_lt hitems (by omega), ok_bind]
    · simp [decode_array, NodeType.decode, hname]

/-- **A node that is read from an array is decoded from its value.** -/
theorem reader_array {turns depth : Nat} {s q r : List Char} {a : Node}
    (hturns : s.length < turns) (hs : skipBlanks s = '[' :: q)
    (h : reader turns (depth + 1) s = .ok (a, r)) :
    ∃ v, value turns (depth + 1) s = .ok (v, r) ∧ decode v = .ok a := by
  obtain ⟨⟨x, r'⟩, hx, hplace⟩ := bind_ok_iff.1 h
  obtain ⟨rfl, rfl⟩ := place_ok_iff.1 hplace
  unfold container at hx
  rw [hs] at hx
  have hq : q.length < turns := by
    have hlength := (skipBlanks_suffix s).length_le
    rw [hs, List.length_cons] at hlength
    omega
  obtain ⟨items, hitems, hdecode⟩ := arrayText_ok hq (mapError_ok_iff.1 hx)
  refine ⟨.array items, ?_, hdecode⟩
  rw [value, valueWith, hs]
  change elements (value turns depth) turns true q >>= _ = _
  rw [hitems]
  rfl

/-- **What a text is decoded to is what its value is decoded to.** -/
theorem decodeText_ok {text : String} {a : Node} (h : decodeText text = .ok a) :
    ∃ v, Value.read text = .ok v ∧ decode v = .ok a := by
  obtain ⟨r, hnode, hr⟩ := readAll_ok_iff.1 (decodeWith_ok_iff.1 h)
  obtain ⟨x, hcontainer, -⟩ := bind_ok_iff.1 hnode
  obtain ⟨v, hvalue, hdecode⟩ : ∃ v, value (text.toList.length + 1) maxDepth text.toList =
      .ok (v, r) ∧ decode v = .ok a := by
    rcases container_opens hcontainer with ⟨q, hs⟩ | ⟨q, hs⟩
    · exact reader_array (Nat.lt_succ_self _) hs hnode
    · exact reader_object hs hnode
  exact ⟨v, readAll_ok_iff.2 ⟨r, hvalue, hr⟩, hdecode⟩

theorem decode_of_decodeText {text : String} {ms : List (String × Value)} {a : Node}
    (hread : Value.read text = .ok (.object ms)) (h : decodeText text = .ok a) :
    decode (.object ms) = .ok a := by
  obtain ⟨v, hv, hdecode⟩ := decodeText_ok h
  cases hread.symm.trans hv
  exact hdecode

end Node

end MarkupTree

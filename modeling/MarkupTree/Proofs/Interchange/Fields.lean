import MarkupTree.Interchange.Decode
import MarkupTree.Proofs.OrderedMap
import MarkupTree.Proofs.Outcome

/-!
# Fields of nodes

The exact decoder goes through the members of a node and takes each field where it meets it, and
never twice: `takeOnce` is that walk for one field. The type of a node, the text of a text and the
three fields of an element are taken so, independently of each other
(`takeOnce_of_decodeElementMembers`). A field that is taken once is found by its name from either
end of the members (`takeOnce_none`).
-/

namespace MarkupTree

open Json OrderedMap

/-! ## Taking one field -/

section TakeOnce

variable {α : Type} (k : String) (decode : Value → Except Mismatch α)

/-- The field `k` among members that have it once at most; `seen` is the one met so far. -/
def takeOnce (seen : Option α) : List (String × Value) → Except Mismatch (Option α)
  | [] => .ok seen
  | (j, v) :: members =>
    if j = k then do
      once j seen
      takeOnce (some (← decode v)) members
    else takeOnce seen members

variable {k decode}

theorem once_ok_iff {name : String} {seen : Option α} {u : Unit} :
    once name seen = .ok u ↔ seen = none := by
  cases seen <;> simp [once]

/-- A walk that takes the field in passing is at the same place as the walk for this field. -/
theorem takeOnce_here {β : Type} {v : Value} {seen : Option α} {f : α → Except Mismatch β} {b : β}
    (h : (once k seen >>= fun _ => decode v >>= f) = .ok b) : ∃ a, f a = .ok b ∧
      ∀ ms, takeOnce k decode seen ((k, v) :: ms) = takeOnce k decode (some a) ms := by
  obtain ⟨_, honce, h⟩ := bind_ok_iff.1 h
  obtain ⟨a, ha, h⟩ := bind_ok_iff.1 h
  refine ⟨a, h, fun ms => ?_⟩
  simp [takeOnce, honce, ha]

theorem takeOnce_other {j : String} (hj : j ≠ k) (v : Value) (seen : Option α)
    (ms : List (String × Value)) :
    takeOnce k decode seen ((j, v) :: ms) = takeOnce k decode seen ms :=
  if_neg hj

theorem takeOnce_some {a : α} {r : Option α} {ms : List (String × Value)}
    (h : takeOnce k decode (some a) ms = .ok r) : r = some a ∧ k ∉ keys ms := by
  induction ms with
  | nil =>
    cases h
    exact ⟨rfl, List.not_mem_nil⟩
  | cons e ms ih =>
    obtain ⟨j, v⟩ := e
    rw [takeOnce] at h
    split at h
    · obtain ⟨_, honce, -⟩ := bind_ok_iff.1 h
      cases once_ok_iff.1 honce
    · rename_i hj
      obtain ⟨hr, hms⟩ := ih h
      exact ⟨hr, List.not_mem_cons_of_ne_of_not_mem (Ne.symm hj) hms⟩

/-- A field that is given once at most is the one that is found first, and the one that is found
last. -/
theorem takeOnce_none {r : Option α} {ms : List (String × Value)}
    (h : takeOnce k decode none ms = .ok r) : find? k ms.reverse = find? k ms ∧
      Option.Rel (fun v a => decode v = .ok a) (find? k ms) r := by
  induction ms with
  | nil =>
    cases h
    exact ⟨rfl, .none⟩
  | cons e ms ih =>
    obtain ⟨j, v⟩ := e
    rw [takeOnce] at h
    rw [List.reverse_cons, find?_append]
    split at h
    · rename_i hj
      obtain ⟨_, -, h⟩ := bind_ok_iff.1 h
      obtain ⟨a, ha, h⟩ := bind_ok_iff.1 h
      obtain ⟨rfl, hms⟩ := takeOnce_some h
      have hlast : find? k ms.reverse = none := find?_eq_none (by simpa [keys] using hms)
      rw [hlast]
      simpa [hj] using Option.Rel.some ha
    · rename_i hj
      simpa [hj] using ih h

end TakeOnce

/-! ## The fields of the two types -/

theorem decodeString_ok_iff {v : Value} {s : String} : decodeString v = .ok s ↔ v = .string s := by
  cases v <;> simp [decodeString]

theorem NodeType.takeOnce_of_ofMembers {seen : Option NodeType} {t : NodeType}
    {ms : List (String × Value)} (h : ofMembers seen ms = .ok t) :
    takeOnce "type" decode seen ms = .ok (some t) := by
  induction ms generalizing seen with
  | nil =>
    cases seen with
    | none => cases h
    | some s =>
      cases h
      rfl
  | cons e ms ih =>
    obtain ⟨k, v⟩ := e
    rw [ofMembers] at h
    split at h
    · rename_i hk
      subst hk
      obtain ⟨s, h, hhere⟩ := takeOnce_here h
      rw [hhere, ih h]
    · rename_i hk
      rw [takeOnce_other hk, ih h]

namespace Node

theorem takeOnce_of_decodeTextMembers {seen : Option String} {n : Node}
    {ms : List (String × Value)} (h : decodeTextMembers seen ms = .ok n) :
    ∃ s, takeOnce "value" decodeString seen ms = .ok (some s) ∧ n = .text s := by
  induction ms generalizing seen with
  | nil =>
    cases seen with
    | none => cases h
    | some s =>
      cases h
      exact ⟨s, rfl, rfl⟩
  | cons e ms ih =>
    obtain ⟨k, v⟩ := e
    rw [decodeTextMembers] at h
    split at h
    · rename_i hk
      subst hk
      obtain ⟨s, h, hhere⟩ := takeOnce_here h
      rw [hhere]
      exact ih h
    · rename_i hk
      rw [takeOnce_other hk]
      exact ih h

/-- The fields of an element are taken independently of each other. -/
theorem takeOnce_of_decodeElementMembers {fields f : ElementFields} {ms : List (String × Value)}
    (h : decodeElementMembers fields ms = .ok f) :
    takeOnce "tag" decodeString fields.tag ms = .ok f.tag ∧
    takeOnce "properties" decodeProperties fields.properties ms = .ok f.properties ∧
    takeOnce "children" decodeChildren fields.children ms = .ok f.children := by
  induction ms generalizing fields with
  | nil =>
    cases h
    exact ⟨rfl, rfl, rfl⟩
  | cons e ms ih =>
    obtain ⟨k, v⟩ := e
    rw [decodeElementMembers] at h
    split at h
    · rename_i hk
      subst hk
      obtain ⟨tag, h, hhere⟩ := takeOnce_here h
      rw [hhere, takeOnce_other (by decide), takeOnce_other (by decide)]
      exact ih h
    · rename_i hk
      rw [takeOnce_other hk]
      split at h
      · rename_i hk
        subst hk
        obtain ⟨p, h, hhere⟩ := takeOnce_here h
        rw [hhere, takeOnce_other (by decide)]
        exact ih h
      · rename_i hk
        rw [takeOnce_other hk]
        split at h
        · rename_i hk
          subst hk
          obtain ⟨cs, h, hhere⟩ := takeOnce_here h
          rw [hhere]
          exact ih h
        · rename_i hk
          rw [takeOnce_other hk]
          exact ih h

theorem ofMembers_element_ok {ms : List (String × Value)} {n : Node}
    (h : ofMembers .element ms = .ok n) : ∃ tag p cs,
      decodeElementMembers {} ms = .ok ⟨some tag, p, cs⟩ ∧
      n = .element tag (p.getD none) (cs.getD none) := by
  obtain ⟨⟨tag, p, cs⟩, hfields, h⟩ := bind_ok_iff.1 h
  obtain ⟨e, he, h⟩ := bind_ok_iff.1 h
  cases h
  cases tag with
  | none => cases he
  | some tag =>
    cases he
    exact ⟨tag, p, cs, hfields, rfl⟩

end Node

end MarkupTree

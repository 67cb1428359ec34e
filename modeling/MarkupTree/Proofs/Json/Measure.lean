import MarkupTree.Json.Text
import MarkupTree.Proofs.Json.NumberLiteral
import MarkupTree.Proofs.Json.Value

/-!
# Depth and size of JSON values

`Value.depth` counts the containers around the innermost value, `Value.size` the values in a value.
A written value has at least as many characters as there are values in it (`size_le_length_before`).
A reader with a number of turns and a depth left gets through a value if both are enough for every
container in it (`Value.Readable`, `readable_of`).
-/

namespace MarkupTree.Json.Value

mutual

/-- How deep containers nest in a value. -/
def depth : Value → Nat
  | .array items => depthAll items + 1
  | .object members => depthMembers members + 1
  | .null | .bool _ | .number _ | .string _ => 0

def depthAll : List Value → Nat
  | [] => 0
  | v :: vs => max v.depth (depthAll vs)

def depthMembers : List (String × Value) → Nat
  | [] => 0
  | (_, v) :: ms => max v.depth (depthMembers ms)

end

mutual

/-- How many values there are in a value, with itself. -/
def size : Value → Nat
  | .array items => sizeAll items + 1
  | .object members => sizeMembers members + 1
  | .null | .bool _ | .number _ | .string _ => 1

def sizeAll : List Value → Nat
  | [] => 0
  | v :: vs => v.size + sizeAll vs

def sizeMembers : List (String × Value) → Nat
  | [] => 0
  | (_, v) :: ms => v.size + sizeMembers ms

end

/-! ## Items and members -/

theorem depthMembers_eq (ms : List (String × Value)) :
    depthMembers ms = depthAll (ms.map Prod.snd) := by
  induction ms with
  | nil => rfl
  | cons e ms ih => rw [depthMembers, ih, List.map_cons, depthAll]

theorem sizeMembers_eq (ms : List (String × Value)) :
    sizeMembers ms = sizeAll (ms.map Prod.snd) := by
  induction ms with
  | nil => rfl
  | cons e ms ih => rw [sizeMembers, ih, List.map_cons, sizeAll]

theorem size_pos (v : Value) : 0 < v.size := by
  cases v <;> simp [size]

theorem depth_le_depthAll {v : Value} {vs : List Value} (h : v ∈ vs) : v.depth ≤ depthAll vs := by
  induction vs with
  | nil => cases h
  | cons w vs ih =>
    rw [depthAll]
    rcases List.mem_cons.1 h with rfl | h
    · omega
    · have := ih h
      omega

theorem size_le_sizeAll {v : Value} {vs : List Value} (h : v ∈ vs) : v.size ≤ sizeAll vs := by
  induction vs with
  | nil => cases h
  | cons w vs ih =>
    rw [sizeAll]
    rcases List.mem_cons.1 h with rfl | h
    · omega
    · have := ih h
      omega

theorem length_le_sizeAll (vs : List Value) : vs.length ≤ sizeAll vs := by
  induction vs with
  | nil => exact Nat.le_refl _
  | cons v vs ih =>
    have := v.size_pos
    rw [List.length_cons, sizeAll]
    omega

/-! ## The length of a written value -/

/-- Every number in the value is an integer. -/
abbrev Integral (v : Value) : Prop := v.Every Number.IsInteger

variable {P : Number → Prop}

theorem length_stringBefore (s : String) (rest : List Char) :
    rest.length + 2 ≤ (stringBefore s rest).length := by
  simp [stringBefore]

theorem sizeAll_le_length {vs : List Value}
    (h : ∀ v ∈ vs, ∀ rest, v.size + rest.length ≤ (v.before rest).length) (rest : List Char) :
    sizeAll vs + rest.length ≤ (itemsBefore rest vs).length := by
  induction vs with
  | nil => simp [sizeAll, itemsBefore]
  | cons v vs ih =>
    have hv := h v List.mem_cons_self (itemsBefore rest vs)
    have hvs := ih fun w hw => h w (List.mem_cons_of_mem _ hw)
    rw [sizeAll, itemsBefore, List.length_cons]
    omega

theorem sizeMembers_le_length {ms : List (String × Value)}
    (h : ∀ e ∈ ms, ∀ rest, e.2.size + rest.length ≤ (e.2.before rest).length) (rest : List Char) :
    sizeMembers ms + rest.length ≤ (membersBefore rest ms).length := by
  induction ms with
  | nil => simp [sizeMembers, membersBefore]
  | cons e ms ih =>
    have he := h e List.mem_cons_self (membersBefore rest ms)
    have hms := ih fun d hd => h d (List.mem_cons_of_mem _ hd)
    have hk := length_stringBefore e.1 (':' :: e.2.before (membersBefore rest ms))
    rw [sizeMembers, membersBefore, List.length_cons]
    rw [List.length_cons] at hk
    omega

/-- A written value has at least as many characters as there are values in it. -/
theorem size_le_length_before (htext : ∀ n, P n → n.text.toList ≠ []) {v : Value} (h : v.Every P)
    (rest : List Char) : v.size + rest.length ≤ (v.before rest).length := by
  induction h generalizing rest with
  | null => simp [size, before]; omega
  | bool b => cases b <;> simp [size, before] <;> omega
  | number hn =>
    have hpos := List.length_pos_of_ne_nil (htext _ hn)
    rw [size, before, List.length_append]
    omega
  | string s =>
    have := length_stringBefore s rest
    rw [size, before]
    omega
  | @array items _ ih =>
    cases items with
    | nil => simp [size, sizeAll, before]; omega
    | cons v vs =>
      have hv := ih v List.mem_cons_self (itemsBefore (']' :: rest) vs)
      have hvs := sizeAll_le_length (fun w hw => ih w (List.mem_cons_of_mem _ hw)) (']' :: rest)
      rw [List.length_cons] at hvs
      rw [size, sizeAll, before, List.length_cons]
      omega
  | @object ms _ ih =>
    cases ms with
    | nil => simp [size, sizeMembers, before]; omega
    | cons e ms =>
      have he := ih e List.mem_cons_self (membersBefore ('\x7d' :: rest) ms)
      have hms := sizeMembers_le_length (fun d hd => ih d (List.mem_cons_of_mem _ hd))
        ('\x7d' :: rest)
      have hk := length_stringBefore e.1 (':' :: e.2.before (membersBefore ('\x7d' :: rest) ms))
      rw [List.length_cons] at hms hk
      rw [size, sizeMembers, before, List.length_cons]
      omega

/-! ## Turns and depth -/

/-- The values that a reader gets through which may take so many turns in each container and goes so
deep, if it gets through the numbers that satisfy `P`. -/
inductive Readable (P : Number → Prop) (turns : Nat) : Nat → Value → Prop
  | null {depth : Nat} : Readable P turns depth .null
  | bool {depth : Nat} (b : Bool) : Readable P turns depth (.bool b)
  | number {depth : Nat} {n : Number} : P n → Readable P turns depth (.number n)
  | string {depth : Nat} (s : String) : Readable P turns depth (.string s)
  | array {depth : Nat} {items : List Value} : items.length < turns →
    (∀ v ∈ items, Readable P turns depth v) → Readable P turns (depth + 1) (.array items)
  | object {depth : Nat} {members : List (String × Value)} : members.length < turns →
    (∀ e ∈ members, Readable P turns depth e.2) → Readable P turns (depth + 1) (.object members)

theorem readable_of {v : Value} (h : v.Every P) {turns depth : Nat} (hsize : v.size ≤ turns)
    (hdepth : v.depth ≤ depth) : Readable P turns depth v := by
  induction h generalizing depth with
  | null => exact .null
  | bool b => exact .bool b
  | number hn => exact .number hn
  | string s => exact .string s
  | @array items _ ih =>
    rw [size] at hsize
    rw [Value.depth] at hdepth
    obtain ⟨d, rfl⟩ := Nat.exists_eq_add_one_of_ne_zero (Nat.ne_zero_of_lt hdepth)
    have hlength := length_le_sizeAll items
    refine .array (by omega) fun v hv => ih v hv ?_ ?_
    · have := size_le_sizeAll hv
      omega
    · have := depth_le_depthAll hv
      omega
  | @object ms _ ih =>
    rw [size, sizeMembers_eq] at hsize
    rw [Value.depth, depthMembers_eq] at hdepth
    obtain ⟨d, rfl⟩ := Nat.exists_eq_add_one_of_ne_zero (Nat.ne_zero_of_lt hdepth)
    have hlength := length_le_sizeAll (ms.map Prod.snd)
    rw [List.length_map] at hlength
    refine .object (by omega) fun e he => ih e he ?_ ?_
    · have := size_le_sizeAll (List.mem_map_of_mem (f := Prod.snd) he)
      omega
    · have := depth_le_depthAll (List.mem_map_of_mem (f := Prod.snd) he)
      omega

end MarkupTree.Json.Value

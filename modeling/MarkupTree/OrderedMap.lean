/-!
# Insertion-ordered maps

A map is the list of its entries, oldest first. Setting a key that is present replaces the value and
keeps the place of the entry (`keys_insert_of_mem`); setting a new key adds an entry at the end
(`insert_of_not_mem`). Keys stay pairwise distinct (`nodup_keys_insert`, `nodup_keys_ofEntries`).
-/

namespace MarkupTree

/-- The entries of a map, in the order in which their keys were first set. -/
abbrev OrderedMap (κ ν : Type) := List (κ × ν)

namespace OrderedMap

variable {κ ν : Type}

/-- The keys, oldest first. -/
def keys (m : OrderedMap κ ν) : List κ := m.map (·.1)

@[simp] theorem keys_nil : keys ([] : OrderedMap κ ν) = [] := rfl

@[simp] theorem keys_cons (e : κ × ν) (m : OrderedMap κ ν) : keys (e :: m) = e.1 :: keys m := rfl

@[simp] theorem keys_append (m m' : OrderedMap κ ν) : keys (m ++ m') = keys m ++ keys m' :=
  List.map_append

variable [DecidableEq κ]

/-- Sets the value at `k`: in place where `k` is present, as a new last entry otherwise. -/
def insert (k : κ) (v : ν) : OrderedMap κ ν → OrderedMap κ ν
  | [] => [(k, v)]
  | (k', v') :: m => if k' = k then (k', v) :: m else (k', v') :: insert k v m

/-- Sets every entry of `es` in order. -/
def extend (m : OrderedMap κ ν) (es : List (κ × ν)) : OrderedMap κ ν :=
  es.foldl (fun m e => insert e.1 e.2 m) m

/-- The map that the entries make when they are set one by one: a repeated key has its last value at
its first place. -/
def ofEntries (es : List (κ × ν)) : OrderedMap κ ν := extend [] es

/-- The value at `k`. -/
def find? (k : κ) : OrderedMap κ ν → Option ν
  | [] => none
  | (k', v) :: m => if k' = k then some v else find? k m

@[simp] theorem find?_nil (k : κ) : find? k ([] : OrderedMap κ ν) = none := rfl

@[simp] theorem find?_cons (k : κ) (e : κ × ν) (m : OrderedMap κ ν) :
    find? k (e :: m) = if e.1 = k then some e.2 else find? k m := rfl

@[simp] theorem insert_nil (k : κ) (v : ν) : insert k v [] = [(k, v)] := rfl

@[simp] theorem insert_cons (k : κ) (v : ν) (e : κ × ν) (m : OrderedMap κ ν) :
    insert k v (e :: m) = if e.1 = k then (e.1, v) :: m else e :: insert k v m := rfl

@[simp] theorem extend_nil (m : OrderedMap κ ν) : extend m [] = m := rfl

@[simp] theorem extend_cons (m : OrderedMap κ ν) (e : κ × ν) (es : List (κ × ν)) :
    extend m (e :: es) = extend (insert e.1 e.2 m) es := rfl

/-! ## What setting a key does -/

theorem insert_of_not_mem {k : κ} {v : ν} {m : OrderedMap κ ν} (h : k ∉ keys m) :
    insert k v m = m ++ [(k, v)] := by
  induction m with
  | nil => rfl
  | cons e m ih =>
    obtain ⟨h1, h2⟩ : ¬k = e.1 ∧ k ∉ keys m := by simpa using h
    simp [ih h2, Ne.symm h1]

theorem keys_insert_of_mem {k : κ} {v : ν} {m : OrderedMap κ ν} (h : k ∈ keys m) :
    keys (insert k v m) = keys m := by
  induction m with
  | nil => simp at h
  | cons e m ih =>
    by_cases he : e.1 = k
    · simp [he]
    · have hm : k ∈ keys m := by
        have : k = e.1 ∨ k ∈ keys m := by simpa using h
        exact this.resolve_left (Ne.symm he)
      simpa [he] using ih hm

theorem keys_insert_of_not_mem {k : κ} {v : ν} {m : OrderedMap κ ν} (h : k ∉ keys m) :
    keys (insert k v m) = keys m ++ [k] := by
  simp [insert_of_not_mem h]

theorem nodup_keys_insert {k : κ} {v : ν} {m : OrderedMap κ ν} (h : (keys m).Nodup) :
    (keys (insert k v m)).Nodup := by
  by_cases hk : k ∈ keys m
  · rwa [keys_insert_of_mem hk]
  · rw [keys_insert_of_not_mem hk]
    refine List.nodup_append.2 ⟨h, by simp, fun a ha b hb => ?_⟩
    rw [List.mem_singleton.1 hb]
    exact fun hab => hk (hab ▸ ha)

theorem nodup_keys_extend {m : OrderedMap κ ν} (es : List (κ × ν)) (h : (keys m).Nodup) :
    (keys (extend m es)).Nodup := by
  induction es generalizing m with
  | nil => exact h
  | cons e es ih => exact ih (nodup_keys_insert h)

theorem nodup_keys_ofEntries (es : List (κ × ν)) : (keys (ofEntries es)).Nodup :=
  nodup_keys_extend es (by simp)

@[simp] theorem find?_insert (k j : κ) (v : ν) (m : OrderedMap κ ν) :
    find? j (insert k v m) = if k = j then some v else find? j m := by
  induction m with
  | nil => rfl
  | cons e m ih =>
    by_cases he : e.1 = k
    · subst he
      by_cases hj : e.1 = j <;> simp [hj]
    · by_cases hj : e.1 = j
      · have hkj : ¬k = j := fun h => he (hj.trans h.symm)
        simp [hj, hkj, Ne.symm hkj]
      · simp [he, hj, ih]

end OrderedMap

end MarkupTree

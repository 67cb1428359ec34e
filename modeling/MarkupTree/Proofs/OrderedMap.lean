import MarkupTree.OrderedMap
import Mathlib.Logic.Function.Defs

/-!
# Maps made of entries

What `ofEntries` makes of a list of entries: the list itself where its keys are pairwise distinct
(`ofEntries_of_nodup`), and the same map after the keys are renamed one to one and the values
changed (`ofEntries_map`). In general it holds each key at its first place (`keys_ofEntries`) with
the value that it is given last (`mem_ofEntries_iff`). A map that is set entry by entry in another
one may be replaced by the entries that it was made of (`extend_ofEntries`).
-/

namespace MarkupTree.OrderedMap

variable {κ ν κ' ν' : Type}

@[simp] theorem keys_map (f : κ → κ') (g : ν → ν') (m : OrderedMap κ ν) :
    keys (m.map (Prod.map f g)) = (keys m).map f := by
  simp [keys, Function.comp_def]

variable [DecidableEq κ] [DecidableEq κ']

theorem mem_of_find? {k : κ} {v : ν} {m : OrderedMap κ ν} (h : find? k m = some v) :
    (k, v) ∈ m := by
  induction m with
  | nil => cases h
  | cons e m ih =>
    by_cases he : e.1 = k
    · obtain rfl : e.2 = v := by simpa [he] using h
      exact he ▸ List.mem_cons_self
    · exact List.mem_cons_of_mem _ (ih (by simpa [he] using h))

theorem find?_of_mem {m : OrderedMap κ ν} (hm : (keys m).Nodup) {e : κ × ν} (he : e ∈ m) :
    find? e.1 m = some e.2 := by
  induction m with
  | nil => cases he
  | cons d m ih =>
    obtain ⟨hd, hm⟩ := List.nodup_cons.1 hm
    rcases List.mem_cons.1 he with rfl | he
    · simp
    · have hne : d.1 ≠ e.1 := fun h => hd (List.mem_map.2 ⟨e, he, h.symm⟩)
      simpa [hne] using ih hm he

theorem mem_insert {k : κ} {v : ν} {m : OrderedMap κ ν} {e : κ × ν} (h : e ∈ insert k v m) :
    e = (k, v) ∨ e ∈ m := by
  induction m with
  | nil => exact .inl (by simpa using h)
  | cons d m ih =>
    by_cases hd : d.1 = k
    · have h' : e = (d.1, v) ∨ e ∈ m := by simpa [hd] using h
      exact h'.imp (fun he => by rw [he, hd]) (List.mem_cons_of_mem _)
    · have h' : e = d ∨ e ∈ insert k v m := by simpa [hd] using h
      rcases h' with rfl | h'
      · exact .inr List.mem_cons_self
      · exact (ih h').imp_right (List.mem_cons_of_mem _)

theorem mem_extend {es : List (κ × ν)} {m : OrderedMap κ ν} {e : κ × ν} (h : e ∈ extend m es) :
    e ∈ m ∨ e ∈ es := by
  induction es generalizing m with
  | nil => exact .inl h
  | cons d es ih =>
    rcases ih h with h | h
    · rcases mem_insert h with rfl | h
      · exact .inr List.mem_cons_self
      · exact .inl h
    · exact .inr (List.mem_cons_of_mem _ h)

theorem mem_of_mem_ofEntries {es : List (κ × ν)} {e : κ × ν} (h : e ∈ ofEntries es) : e ∈ es :=
  (mem_extend h).resolve_left List.not_mem_nil

theorem extend_of_nodup {m : OrderedMap κ ν} {es : List (κ × ν)} (h : (keys (m ++ es)).Nodup) :
    extend m es = m ++ es := by
  induction es generalizing m with
  | nil => simp
  | cons e es ih =>
    have hk : e.1 ∉ keys m := by
      intro hm
      have hd := (List.nodup_append.1 (by simpa using h)).2.2
      exact hd e.1 hm e.1 List.mem_cons_self rfl
    have he : insert e.1 e.2 m = m ++ [e] := insert_of_not_mem hk
    rw [extend_cons, he, ih (by simpa using h)]
    simp

theorem ofEntries_of_nodup {es : List (κ × ν)} (h : (keys es).Nodup) : ofEntries es = es :=
  extend_of_nodup (m := []) h

theorem insert_ne_nil (k : κ) (v : ν) (m : OrderedMap κ ν) : insert k v m ≠ [] := by
  cases m with
  | nil => exact List.cons_ne_nil _ _
  | cons e m => unfold insert; split <;> exact List.cons_ne_nil _ _

theorem extend_ne_nil {m : OrderedMap κ ν} (es : List (κ × ν)) (h : m ≠ []) : extend m es ≠ [] := by
  induction es generalizing m with
  | nil => exact h
  | cons e es ih => exact ih (insert_ne_nil e.1 e.2 m)

@[simp] theorem ofEntries_eq_nil_iff {es : List (κ × ν)} : ofEntries es = [] ↔ es = [] := by
  cases es with
  | nil => exact ⟨fun _ => rfl, fun _ => rfl⟩
  | cons e es =>
    exact ⟨fun h => absurd h (extend_ne_nil es (List.cons_ne_nil _ _)), fun h => by cases h⟩

/-! ## Setting entries that are set again -/

@[simp] theorem mem_keys_insert {j k : κ} {v : ν} {m : OrderedMap κ ν} :
    j ∈ keys (insert k v m) ↔ j = k ∨ j ∈ keys m := by
  by_cases hk : k ∈ keys m
  · rw [keys_insert_of_mem hk]
    exact ⟨.inr, fun h => h.elim (· ▸ hk) id⟩
  · rw [keys_insert_of_not_mem hk, List.mem_append, List.mem_singleton, or_comm]

@[simp] theorem insert_insert (k : κ) (v w : ν) (m : OrderedMap κ ν) :
    insert k v (insert k w m) = insert k v m := by
  induction m with
  | nil => simp
  | cons e m ih => by_cases he : e.1 = k <;> simp [he, ih]

theorem insert_comm {j k : κ} (h : j ≠ k) (v w : ν) {m : OrderedMap κ ν} (hk : k ∈ keys m) :
    insert j w (insert k v m) = insert k v (insert j w m) := by
  induction m with
  | nil => cases hk
  | cons e m ih =>
    by_cases hek : e.1 = k
    · have hej : e.1 ≠ j := fun he => h (he.symm.trans hek)
      simp [hek, Ne.symm h]
    · have hm : k ∈ keys m := (List.mem_cons.1 hk).resolve_left (Ne.symm hek)
      by_cases hej : e.1 = j <;> simp [hek, hej, h, ih hm]

@[simp] theorem extend_append (m : OrderedMap κ ν) (es ds : List (κ × ν)) :
    extend m (es ++ ds) = extend (extend m es) ds :=
  List.foldl_append

/-- A key that is present and not set again may as well be set last. -/
theorem extend_insert_of_not_mem {k : κ} (v : ν) {es : List (κ × ν)} (hes : k ∉ keys es)
    {m : OrderedMap κ ν} (hm : k ∈ keys m) :
    extend (insert k v m) es = insert k v (extend m es) := by
  induction es generalizing m with
  | nil => rfl
  | cons e es ih =>
    obtain ⟨hne, hes⟩ : ¬k = e.1 ∧ k ∉ keys es := by simpa using hes
    rw [extend_cons, extend_cons, insert_comm (Ne.symm hne) v e.2 hm,
      ih hes (mem_keys_insert.2 (.inr hm))]

/-- Setting one more entry of a map, or setting the map and then the entry, is the same. -/
theorem extend_insert (k : κ) (v : ν) {es : OrderedMap κ ν} (hes : (keys es).Nodup)
    (m : OrderedMap κ ν) : extend m (insert k v es) = insert k v (extend m es) := by
  induction es generalizing m with
  | nil => rfl
  | cons e es ih =>
    obtain ⟨he, hes⟩ := List.nodup_cons.1 hes
    by_cases hek : e.1 = k
    · subst hek
      have hmem : e.1 ∈ keys (insert e.1 e.2 m) := mem_keys_insert.2 (.inl rfl)
      rw [insert_cons, if_pos rfl, extend_cons, extend_cons]
      simp [← extend_insert_of_not_mem v he hmem]
    · rw [insert_cons, if_neg hek]
      exact ih hes (insert e.1 e.2 m)

/-- **Entries may be made a map before they are set.** -/
@[simp] theorem extend_ofEntries (m : OrderedMap κ ν) (es : List (κ × ν)) :
    extend m (ofEntries es) = extend m es := by
  have key : ∀ n : OrderedMap κ ν, (keys n).Nodup →
      extend m (extend n es) = extend (extend m n) es := by
    induction es with
    | nil => exact fun n _ => rfl
    | cons e es ih =>
      intro n hn
      rw [extend_cons, extend_cons, ih _ (nodup_keys_insert hn), extend_insert e.1 e.2 hn]
  exact key [] .nil

/-! ## What is left of a list of entries -/

theorem eraseDups_of_nodup {ks : List κ} (h : ks.Nodup) : ks.eraseDups = ks := by
  induction ks with
  | nil => rfl
  | cons k ks ih =>
    obtain ⟨hk, hks⟩ := List.nodup_cons.1 h
    have hfilter : ks.filter (fun j => !j == k) = ks := by
      refine List.filter_eq_self.2 fun j hj => ?_
      simpa using fun hjk : j = k => hk (hjk ▸ hj)
    rw [List.eraseDups_cons, hfilter, ih hks]

theorem eraseDups_append_cons_of_mem {k : κ} {ks : List κ} (h : k ∈ ks) (more : List κ) :
    (ks ++ k :: more).eraseDups = (ks ++ more).eraseDups := by
  have hk : (k :: more).removeAll ks = more.removeAll ks := by simp [List.removeAll, h]
  rw [List.eraseDups_append, List.eraseDups_append, hk]

/-- The keys that are there stay in front; of the keys that are set, each new one is added where it
comes first. -/
theorem keys_extend {m : OrderedMap κ ν} (hm : (keys m).Nodup) (es : List (κ × ν)) :
    keys (extend m es) = (keys m ++ keys es).eraseDups := by
  induction es generalizing m with
  | nil =>
    simp [eraseDups_of_nodup hm]
  | cons e es ih =>
    rw [extend_cons, keys_cons, ih (nodup_keys_insert hm)]
    by_cases he : e.1 ∈ keys m
    · rw [keys_insert_of_mem he, eraseDups_append_cons_of_mem he]
    · rw [keys_insert_of_not_mem he, List.append_assoc, List.singleton_append]

/-- A map holds its keys in the order in which the entries first name them. -/
theorem keys_ofEntries (es : List (κ × ν)) : keys (ofEntries es) = (keys es).eraseDups :=
  keys_extend (m := []) .nil es

theorem nodup_eraseDups (ks : List κ) : ks.eraseDups.Nodup := by
  have h := nodup_keys_ofEntries (ks.map (·, ()))
  rw [keys_ofEntries] at h
  simpa [keys, Function.comp_def] using h

@[simp] theorem find?_append (k : κ) (m m' : OrderedMap κ ν) :
    find? k (m ++ m') = (find? k m).or (find? k m') := by
  induction m with
  | nil => rfl
  | cons e m ih => by_cases he : e.1 = k <;> simp [he, ih]

/-- What is found is what was set last. -/
theorem find?_extend (k : κ) (m : OrderedMap κ ν) (es : List (κ × ν)) :
    find? k (extend m es) = (find? k es.reverse).or (find? k m) := by
  induction es generalizing m with
  | nil => rfl
  | cons e es ih =>
    rw [extend_cons, ih, find?_insert, List.reverse_cons, find?_append, Option.or_assoc]
    by_cases he : e.1 = k <;> simp [he]

theorem find?_ofEntries (k : κ) (es : List (κ × ν)) :
    find? k (ofEntries es) = find? k es.reverse :=
  (find?_extend k [] es).trans Option.or_none

/-- In a map it does not matter from which end a key is looked for. -/
theorem find?_reverse {m : OrderedMap κ ν} (hm : (keys m).Nodup) (k : κ) :
    find? k m.reverse = find? k m := by
  rw [← find?_ofEntries, ofEntries_of_nodup hm]

theorem find?_map_of_injective {f : κ → κ'} (hf : Function.Injective f) (k : κ) (g : ν → ν')
    (m : OrderedMap κ ν) : find? (f k) (m.map (Prod.map f g)) = (find? k m).map g := by
  induction m with
  | nil => rfl
  | cons e m ih => by_cases he : e.1 = k <;> simp [hf.eq_iff, he, ih]

@[simp] theorem find?_map (k : κ) (g : ν → ν') (m : OrderedMap κ ν) :
    find? k (m.map (Prod.map id g)) = (find? k m).map g :=
  find?_map_of_injective Function.injective_id k g m

theorem find?_eq_none {k : κ} {m : OrderedMap κ ν} (h : k ∉ keys m) : find? k m = none := by
  cases hv : find? k m with
  | none => rfl
  | some v => exact absurd (List.mem_map.2 ⟨(k, v), mem_of_find? hv, rfl⟩) h

theorem find?_eq_some_iff {k : κ} {v : ν} {m : OrderedMap κ ν} :
    find? k m = some v ↔ ∃ before after, m = before ++ (k, v) :: after ∧ k ∉ keys before := by
  constructor
  · intro h
    induction m with
    | nil => cases h
    | cons e m ih =>
      by_cases he : e.1 = k
      · obtain rfl : e.2 = v := by simpa [he] using h
        exact ⟨[], m, by rw [← he, List.nil_append], List.not_mem_nil⟩
      · obtain ⟨before, after, rfl, hk⟩ := ih (by simpa [he] using h)
        exact ⟨e :: before, after, rfl, List.not_mem_cons_of_ne_of_not_mem (Ne.symm he) hk⟩
  · rintro ⟨before, after, rfl, hk⟩
    have hbefore : find? k before = none := find?_eq_none hk
    rw [find?_append, hbefore]
    simp

/-- An entry is in the map that entries make when it is the last of them with its key. -/
theorem mem_ofEntries_iff {k : κ} {v : ν} {es : List (κ × ν)} : (k, v) ∈ ofEntries es ↔
    ∃ before after, es = before ++ (k, v) :: after ∧ k ∉ keys after := by
  have hfind : (k, v) ∈ ofEntries es ↔ find? k (ofEntries es) = some v :=
    ⟨find?_of_mem (nodup_keys_ofEntries es), mem_of_find?⟩
  rw [hfind, find?_ofEntries, find?_eq_some_iff]
  constructor
  · rintro ⟨after, before, h, hk⟩
    refine ⟨before.reverse, after.reverse, ?_, by simpa [keys] using hk⟩
    simpa using congrArg List.reverse h
  · rintro ⟨before, after, rfl, hk⟩
    exact ⟨after.reverse, before.reverse, by simp, by simpa [keys] using hk⟩

/-! ## Other names and values -/

section Map

variable {f : κ → κ'} (hf : Function.Injective f) (g : ν → ν')
include hf

theorem insert_map (k : κ) (v : ν) (m : OrderedMap κ ν) :
    insert (f k) (g v) (m.map (Prod.map f g)) = (insert k v m).map (Prod.map f g) := by
  induction m with
  | nil => rfl
  | cons e m ih =>
    obtain ⟨j, w⟩ := e
    by_cases h : j = k <;> simp [hf.eq_iff, h, ih]

theorem extend_map (m : OrderedMap κ ν) (es : List (κ × ν)) :
    extend (m.map (Prod.map f g)) (es.map (Prod.map f g)) = (extend m es).map (Prod.map f g) := by
  induction es generalizing m with
  | nil => rfl
  | cons e es ih =>
    rw [List.map_cons, extend_cons, extend_cons, Prod.map_fst, Prod.map_snd, insert_map hf]
    exact ih _

/-- Setting the entries under other names gives the map under other names. -/
theorem ofEntries_map (es : List (κ × ν)) :
    ofEntries (es.map (Prod.map f g)) = (ofEntries es).map (Prod.map f g) :=
  extend_map hf g [] es

theorem eraseDups_map (ks : List κ) : (ks.map f).eraseDups = ks.eraseDups.map f := by
  have hkeys (js : List κ) : keys (js.map (·, ())) = js := by
    simp [keys, Function.comp_def]
  have hmap : keys ((ks.map (·, ())).map (Prod.map f id)) = ks.map f := by rw [keys_map, hkeys]
  calc (ks.map f).eraseDups
      = keys (ofEntries ((ks.map (·, ())).map (Prod.map f id))) := by rw [keys_ofEntries, hmap]
    _ = (keys (ofEntries (ks.map (·, ())))).map f := by rw [ofEntries_map hf, keys_map]
    _ = ks.eraseDups.map f := by rw [keys_ofEntries, hkeys]

end Map

end MarkupTree.OrderedMap

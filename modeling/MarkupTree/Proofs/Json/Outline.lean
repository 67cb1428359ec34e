import MarkupTree.Proofs.Json.Reader

/-!
# The outline of a document

A document taken apart at its brackets, commas and keys only: where a plain value stands, the
outline has the text from there on (`Outline.plain`). It is read by the walks by which values are
read, and the value of a text is what the outline makes with every plain value in it read in its
place (`value_readsAs`, `Outline.read_value`). So what is said of a place in the text
(`Outline.get?`) is said of the place in the value (`Outline.get?_value`).
-/

namespace MarkupTree.Json

open OrderedMap

/-- A document with its plain values unread: each is the text from the value on. -/
inductive Outline
  | plain (unread : List Char)
  | array (items : List Outline)
  | object (members : List (String × Outline))

namespace Outline

/-- Reads the outline of a value; where there is no `inner` there may be no container. -/
def readerWith (turns : Nat) (inner : Option (Reader Outline)) : Reader Outline := fun s =>
  match skipBlanks s with
  | '[' :: s =>
    match inner with
    | none => .error (.here .nestedTooDeep ('[' :: s))
    | some item => do
      let (items, s) ← elements item turns true s
      return (.array items, s)
  | '\x7b' :: s =>
    match inner with
    | none => .error (.here .nestedTooDeep ('\x7b' :: s))
    | some item => do
      let (ms, s) ← members (addMember item) turns true [] s
      return (.object ms.reverse, s)
  | s => do
    let (_, r) ← plainValue s
    return (.plain s, r)

/-- Reads the outline of a value in which containers nest at most `depth` deep. -/
def reader (turns : Nat) : (depth : Nat) → Reader Outline
  | 0 => readerWith turns none
  | depth + 1 => readerWith turns (some (reader turns depth))

/-- The outline of a text in which containers nest at most `depth` deep. -/
def read (depth : Nat) (text : String) : Except Halt Outline :=
  readAll (fun turns => reader turns depth) text.toList

/-- The plain value with which a text begins. -/
def plainOf (unread : List Char) : Value :=
  match plainValue unread with
  | .ok (v, _) => v
  | .error _ => .null

mutual

/-- The value that the outline makes with every plain value read in its place. -/
def value : Outline → Value
  | .plain unread => plainOf unread
  | .array items => .array (valueAll items)
  | .object members => .object (valueMembers members)

def valueAll : List Outline → List Value
  | [] => []
  | o :: os => o.value :: valueAll os

def valueMembers : List (String × Outline) → List (String × Value)
  | [] => []
  | (k, o) :: ms => (k, o.value) :: valueMembers ms

end

theorem valueAll_eq (os : List Outline) : valueAll os = os.map value := by
  induction os with
  | nil => rfl
  | cons o os ih => rw [valueAll, ih, List.map_cons]

theorem valueMembers_eq (ms : List (String × Outline)) :
    valueMembers ms = ms.map (Prod.map id value) := by
  induction ms with
  | nil => rfl
  | cons e ms ih => rw [valueMembers, ih]; rfl

end Outline

/-! ## Readers that read alike -/

section ReadsAs

variable {α β : Type} {f : α → β} {item : Reader α} {item' : Reader β}

/-- The second reader answers what `f` makes of the answer of the first, and leaves the same. -/
def ReadsAs (f : α → β) (item : Reader α) (item' : Reader β) : Prop :=
  ∀ s, item' s = (item s).map (Prod.map f id)

theorem elements_readsAs (h : ReadsAs f item item') (turns : Nat) (first : Bool) :
    ReadsAs (List.map f) (elements item turns first) (elements item' turns first) := by
  induction turns generalizing first with
  | zero => exact fun _ => rfl
  | succ turns ih =>
    intro s
    rw [elements, elements]
    cases nextElement first s with
    | error e => rfl
    | ok next =>
      obtain ⟨more, q⟩ := next
      cases more with
      | false => rfl
      | true =>
        simp only [ok_bind, if_true, h q]
        cases item q with
        | error e => rfl
        | ok x =>
          simp only [Except.map, ok_bind, Prod.map_snd, id, ih false x.2]
          cases elements item turns false x.2 <;> rfl

/-- The members that are there already have the values that `f` makes. -/
theorem members_readsAs (h : ReadsAs f item item') (turns : Nat) (first : Bool)
    (acc : List (String × α)) : ReadsAs (List.map (Prod.map id f))
      (fun s => members (addMember item) turns first acc s)
      (fun s => members (addMember item') turns first (acc.map (Prod.map id f)) s) := by
  induction turns generalizing first acc with
  | zero => exact fun _ => rfl
  | succ turns ih =>
    intro s
    show members _ _ _ _ _ = (members _ _ _ _ _).map _
    rw [members, members]
    cases nextKey first s with
    | error e => rfl
    | ok next =>
      obtain ⟨key, q⟩ := next
      cases key with
      | none => rfl
      | some k =>
        simp only [ok_bind, addMember]
        cases colon q with
        | error e => rfl
        | ok r =>
          simp only [ok_bind, h r]
          cases item r with
          | error e => rfl
          | ok x => exact ih false ((k, x.1) :: acc) x.2

theorem readAll_readsAs {reader : Nat → Reader α} {reader' : Nat → Reader β}
    (h : ∀ turns, ReadsAs f (reader turns) (reader' turns)) (text : List Char) :
    readAll reader' text = (readAll reader text).map f := by
  unfold readAll
  rw [h]
  cases reader (text.length + 1) text with
  | error e => rfl
  | ok x =>
    simp only [Except.map, ok_bind, Prod.map_fst, Prod.map_snd, id]
    cases skipBlanks x.2 <;> rfl

end ReadsAs

/-! ## Values -/

theorem Outline.readerWith_other {turns : Nat} {inner : Option (Reader Outline)} {s : List Char}
    (harray : ∀ q, skipBlanks s ≠ '[' :: q) (hobject : ∀ q, skipBlanks s ≠ '\x7b' :: q) :
    readerWith turns inner s =
      plainValue (skipBlanks s) >>= fun x => .ok (plain (skipBlanks s), x.2) := by
  unfold readerWith
  split
  · exact absurd ‹_› (harray _)
  · exact absurd ‹_› (hobject _)
  · rfl

theorem valueWith_readsAs (turns : Nat) {inner : Option (Reader Outline)}
    {inner' : Option (Reader Value)} (h : Option.Rel (ReadsAs Outline.value) inner inner') :
    ReadsAs Outline.value (Outline.readerWith turns inner) (valueWith turns inner') := by
  intro s
  rcases beginning s with ⟨q, hq⟩ | ⟨q, hq⟩ | ⟨harray, hobject⟩
  · rw [Outline.readerWith, valueWith, hq]
    cases h with
    | none => rfl
    | @some item item' h =>
      simp only [elements_readsAs h turns true q]
      cases elements item turns true q with
      | error e => rfl
      | ok x =>
        show Except.ok (Value.array (x.1.map Outline.value), x.2) = .ok (.array _, x.2)
        rw [Outline.valueAll_eq]
  · rw [Outline.readerWith, valueWith, hq]
    cases h with
    | none => rfl
    | @some item item' h =>
      have hms : members (addMember item') turns true [] q = _ := members_readsAs h turns true [] q
      simp only [hms]
      cases members (addMember item) turns true [] q with
      | error e => rfl
      | ok x =>
        show Except.ok (Value.object (x.1.map (Prod.map id Outline.value)).reverse, x.2) =
          .ok (.object (Outline.valueMembers x.1.reverse), x.2)
        rw [Outline.valueMembers_eq, List.map_reverse]
  · rw [Outline.readerWith_other harray hobject, valueWith_other harray hobject]
    cases hplain : plainValue (skipBlanks s) with
    | error e => rfl
    | ok x =>
      show Except.ok x = .ok (Outline.plainOf (skipBlanks s), x.2)
      rw [Outline.plainOf, hplain]

/-- **A value is read as what its outline makes.** -/
theorem value_readsAs (turns depth : Nat) :
    ReadsAs Outline.value (Outline.reader turns depth) (value turns depth) := by
  induction depth with
  | zero => exact valueWith_readsAs turns .none
  | succ depth ih => exact valueWith_readsAs turns (.some ih)

/-- The value of a text is what its outline makes, however deep the outline was read. -/
theorem Outline.read_value {depth : Nat} {text : String} {o : Outline}
    (h : Outline.read depth text = .ok o) (hdepth : o.value.depth ≤ maxDepth) :
    Value.read text = .ok o.value := by
  have hread : readAll (fun turns => Json.value turns depth) text.toList =
      (Outline.read depth text).map Outline.value :=
    readAll_readsAs (fun turns => value_readsAs turns depth) text.toList
  rw [h] at hread
  exact read_of_depth_le hread hdepth

/-! ## Places -/

/-- A step from a container to what is in it: the item with this place, or the member with this key.
-/
inductive Step
  | item (i : Nat)
  | member (k : String)

/-- What stands at the end of a path. Of members with the same key the last one counts. -/
def Value.get? : Value → List Step → Option Value
  | v, [] => some v
  | .array items, .item i :: path => items[i]?.bind fun v => v.get? path
  | .object ms, .member k :: path => (find? k ms.reverse).bind fun v => v.get? path
  | _, _ => none

/-- What stands at the end of a path in the outline. -/
def Outline.get? : Outline → List Step → Option Outline
  | o, [] => some o
  | .array items, .item i :: path => items[i]?.bind fun o => o.get? path
  | .object ms, .member k :: path => (find? k ms.reverse).bind fun o => o.get? path
  | _, _ => none

/-- The text of the document from the plain value on that stands at the end of a path. -/
def Outline.textAt? (o : Outline) (path : List Step) : Option (List Char) :=
  match o.get? path with
  | some (.plain unread) => some unread
  | _ => none

theorem Value.get?_nil (v : Value) : v.get? [] = some v := by
  cases v <;> rfl

theorem Outline.get?_nil (o : Outline) : o.get? [] = some o := by
  cases o <;> rfl

theorem Outline.get?_value {o u : Outline} {path : List Step} (h : o.get? path = some u) :
    o.value.get? path = some u.value := by
  induction path generalizing o with
  | nil =>
    rw [get?_nil] at h
    rw [Value.get?_nil, Option.some.inj h]
  | cons step path ih =>
    cases o with
    | plain unread => simp [get?] at h
    | array items =>
      cases step with
      | member k => simp [get?] at h
      | item i =>
        obtain ⟨w, hw, h⟩ := Option.bind_eq_some_iff.1 h
        rw [value, valueAll_eq, Value.get?, List.getElem?_map, hw]
        exact ih h
    | object ms =>
      cases step with
      | item i => simp [get?] at h
      | member k =>
        obtain ⟨w, hw, h⟩ := Option.bind_eq_some_iff.1 h
        rw [value, valueMembers_eq, Value.get?, ← List.map_reverse, find?_map, hw]
        exact ih h

/-- Where the document has the text of a plain value, the value has that plain value. -/
theorem Outline.get?_value_of_textAt? {o : Outline} {path : List Step} {unread : List Char}
    (h : o.textAt? path = some unread) : o.value.get? path = some (plainOf unread) := by
  unfold textAt? at h
  split at h
  · rename_i u hu
    cases h
    exact get?_value hu
  · cases h

namespace Value

theorem get?_congr {g : Value → Value}
    (harray : ∀ items, g (array items) = array (items.map g))
    (hobject : ∀ ms, ∃ ms', g (object ms) = object ms' ∧
      ∀ k, find? k ms'.reverse = (find? k ms.reverse).map g)
    {v u : Value} {path : List Step} (h : v.get? path = some u) :
    (g v).get? path = some (g u) := by
  induction path generalizing v with
  | nil =>
    rw [get?_nil] at h
    rw [get?_nil, Option.some.inj h]
  | cons step path ih =>
    cases v with
    | null | bool | number | string => simp [get?] at h
    | array items =>
      cases step with
      | member k => simp [get?] at h
      | item i =>
        obtain ⟨w, hw, h⟩ := Option.bind_eq_some_iff.1 h
        rw [harray, get?, List.getElem?_map, hw]
        exact ih h
    | object ms =>
      cases step with
      | item i => simp [get?] at h
      | member k =>
        obtain ⟨w, hw, h⟩ := Option.bind_eq_some_iff.1 h
        obtain ⟨ms', hms', hfind⟩ := hobject ms
        rw [hms', get?, hfind, hw]
        exact ih h

theorem get?_collapse {v u : Value} {path : List Step} (h : v.get? path = some u) :
    v.collapse.get? path = some u.collapse := by
  refine get?_congr collapse_array (fun ms => ⟨_, collapse_object ms, fun k => ?_⟩) h
  rw [find?_reverse, find?_map, find?_ofEntries]
  simpa using nodup_keys_ofEntries ms

theorem get?_blankNulls {v u : Value} {path : List Step} (h : v.get? path = some u) :
    v.blankNulls.get? path = some u.blankNulls := by
  refine get?_congr blankNulls_array (fun ms => ⟨_, blankNulls_object ms, fun k => ?_⟩) h
  rw [← List.map_reverse, find?_map]

theorem get?_append (v : Value) (path more : List Step) :
    v.get? (path ++ more) = (v.get? path).bind fun u => u.get? more := by
  induction path generalizing v with
  | nil => rw [get?_nil, List.nil_append, Option.bind_some]
  | cons step path ih =>
    rw [List.cons_append]
    cases v with
    | null | bool | number | string => simp [get?]
    | array items =>
      cases step with
      | member k => simp [get?]
      | item i =>
        rw [get?, get?, Option.bind_assoc]
        simp only [ih]
    | object ms =>
      cases step with
      | item i => simp [get?]
      | member k =>
        rw [get?, get?, Option.bind_assoc]
        simp only [ih]

end Value

end MarkupTree.Json

import MarkupTree.Text.Position
import Mathlib.Data.List.Induction

/-!
# Places in the bytes of a text

A place counts bytes, and bytes are all that it depends on: reading a byte of a line adds one to the
column, reading a line break starts the next line (`Position.next`), and no byte of another
character is a line break (`newline_not_mem_utf8EncodeChar`). So the place after `n` bytes is the
number of line breaks in them and the number of bytes behind the last one (`Position.after_eq`).

`Position.offset` finds the last byte before a place again, with one exception: a place at the start
of a line has column zero, and there is no column before it; then the first byte of the line is
found, and not the line break (`Position.offset_after`).
-/

namespace MarkupTree.Text

/-! ## Bytes -/

/-- The bytes of the characters in UTF-8. -/
def bytes (cs : List Char) : List UInt8 := cs.flatMap String.utf8EncodeChar

/-- The byte that ends a line. -/
def newline : UInt8 := 10

@[simp] theorem bytes_cons (c : Char) (cs : List Char) :
    bytes (c :: cs) = String.utf8EncodeChar c ++ bytes cs := rfl

theorem bytes_toList (text : String) : bytes text.toList = text.toUTF8.data.toList := by
  have htext : text.toUTF8 = text.toList.utf8Encode := by
    rw [← String.toByteArray_ofList, String.ofList_toList]
    rfl
  rw [htext, List.utf8Encode, List.toList_data_toByteArray]
  rfl

theorem byteCount_append (cs ds : List Char) : byteCount (cs ++ ds) = byteCount cs + byteCount ds := by
  induction cs with
  | nil => simp [byteCount]
  | cons c cs ih =>
    show c.utf8Size + byteCount (cs ++ ds) = c.utf8Size + byteCount cs + byteCount ds
    omega

theorem byteCount_le_of_suffix {s t : List Char} (h : s <:+ t) : byteCount s ≤ byteCount t := by
  obtain ⟨r, rfl⟩ := h
  rw [byteCount_append]
  omega

theorem length_bytes (cs : List Char) : (bytes cs).length = byteCount cs := by
  induction cs with
  | nil => rfl
  | cons c cs ih =>
    rw [bytes_cons, List.length_append, ih, String.length_utf8EncodeChar]
    rfl

theorem newline_ne_ofNat {n : Nat} (h : n % 256 ≠ 10) : newline ≠ UInt8.ofNat n := by
  intro heq
  have := congrArg UInt8.toNat heq
  rw [UInt8.toNat_ofNat'] at this
  exact h this.symm

/-- The bytes of longer characters are not below 128, so none of them is a line break. -/
theorem newline_not_mem_utf8EncodeChar {c : Char} (h : c ≠ '\n') :
    newline ∉ String.utf8EncodeChar c := by
  have hc : c.val.toNat ≠ 10 := fun hval => h (Char.ext (UInt32.toNat_inj.1 hval))
  unfold String.utf8EncodeChar
  dsimp only
  split
  · simpa using newline_ne_ofNat (n := c.val.toNat) (by omega)
  · split
    · simp only [List.mem_cons, List.not_mem_nil, or_false, not_or]
      exact ⟨newline_ne_ofNat (by omega), newline_ne_ofNat (by omega)⟩
    · split
      · simp only [List.mem_cons, List.not_mem_nil, or_false, not_or]
        exact ⟨newline_ne_ofNat (by omega), newline_ne_ofNat (by omega),
          newline_ne_ofNat (by omega)⟩
      · simp only [List.mem_cons, List.not_mem_nil, or_false, not_or]
        exact ⟨newline_ne_ofNat (by omega), newline_ne_ofNat (by omega),
          newline_ne_ofNat (by omega), newline_ne_ofNat (by omega)⟩

namespace Position

/-! ## Reading on -/

/-- The place one byte further on. -/
def next (p : Position) (b : UInt8) : Position :=
  if b = newline then ⟨p.line + 1, 0⟩ else ⟨p.line, p.column + 1⟩

theorem foldl_next_of_not_mem {bs : List UInt8} (h : newline ∉ bs) (p : Position) :
    bs.foldl next p = ⟨p.line, p.column + bs.length⟩ := by
  induction bs generalizing p with
  | nil => rfl
  | cons b bs ih =>
    obtain ⟨hb, hbs⟩ : ¬newline = b ∧ newline ∉ bs := by simpa using h
    rw [List.foldl_cons, ih hbs, next, if_neg (Ne.symm hb), List.length_cons]
    simp only [Position.mk.injEq, true_and]
    omega

/-- **Reading goes byte by byte.** -/
theorem advance_eq_foldl (n : Nat) (cs : List Char) (p : Position) :
    advance n cs p = ((bytes cs).take n).foldl next p := by
  induction cs generalizing n p with
  | nil => simp [advance, bytes]
  | cons c cs ih =>
    have hsize := String.length_utf8EncodeChar c
    rw [bytes_cons, advance]
    by_cases hc : c = '\n'
    · subst hc
      have hone : '\n'.utf8Size = 1 := rfl
      have hencode : String.utf8EncodeChar '\n' = [newline] := rfl
      rw [hone, hencode]
      cases n with
      | zero => simp
      | succ n => simpa [next] using ih n ⟨p.line + 1, 0⟩
    · have hbytes := newline_not_mem_utf8EncodeChar hc
      by_cases hn : n < c.utf8Size
      · have htake : newline ∉ (String.utf8EncodeChar c).take n :=
          fun h => hbytes (List.mem_of_mem_take h)
        rw [if_pos hn, List.take_append_of_le_length (by omega), foldl_next_of_not_mem htake,
          List.length_take, hsize, Nat.min_eq_left (by omega)]
      · have hall : (String.utf8EncodeChar c).take n = String.utf8EncodeChar c :=
          List.take_of_length_le (by omega)
        rw [if_neg hn, if_neg hc, ih, List.take_append, hall, List.foldl_append,
          foldl_next_of_not_mem hbytes, hsize]

theorem foldl_next_eq (bs : List UInt8) : bs.foldl next ⟨1, 0⟩ =
    ⟨1 + bs.count newline, (bs.reverse.takeWhile (· ≠ newline)).length⟩ := by
  induction bs using List.reverseRecOn with
  | nil => rfl
  | append_singleton bs b ih =>
    rw [List.foldl_append, ih, List.foldl_cons, List.foldl_nil, next, List.count_append,
      List.reverse_append]
    by_cases hb : b = newline
    · subst hb
      simp [Nat.add_assoc]
    · simp [hb]

/-- **The place after `n` bytes** is the number of line breaks in them, and the number of bytes
behind the last one. -/
theorem after_eq (n : Nat) (cs : List Char) : after n cs =
    ⟨1 + ((bytes cs).take n).count newline,
      (((bytes cs).take n).reverse.takeWhile (· ≠ newline)).length⟩ := by
  rw [after, advance_eq_foldl, foldl_next_eq]

/-! ## Going back -/

/-- How many bytes the first `k` lines take. -/
def lineBytes : Nat → List UInt8 → Nat
  | 0, _ => 0
  | _ + 1, [] => 0
  | k + 1, b :: bs => 1 + if b = newline then lineBytes k bs else lineBytes (k + 1) bs

theorem lineBytes_append_of_not_mem {as : List UInt8} (h : newline ∉ as) (k : Nat)
    (bs : List UInt8) : lineBytes (k + 1) (as ++ bs) = as.length + lineBytes (k + 1) bs := by
  induction as with
  | nil => simp
  | cons a as ih =>
    obtain ⟨ha, has⟩ : ¬newline = a ∧ newline ∉ as := by simpa using h
    rw [List.cons_append, lineBytes, if_neg (Ne.symm ha), ih has, List.length_cons]
    omega

theorem bytesOfLines_eq (k : Nat) (cs : List Char) :
    bytesOfLines k cs = lineBytes k (bytes cs) := by
  induction cs generalizing k with
  | nil => cases k <;> rfl
  | cons c cs ih =>
    cases k with
    | zero => rw [bytesOfLines, lineBytes]
    | succ k =>
      rw [bytesOfLines, bytes_cons]
      by_cases hc : c = '\n'
      · subst hc
        simp only [if_true, ih]
        rfl
      · rw [if_neg hc, ih, lineBytes_append_of_not_mem (newline_not_mem_utf8EncodeChar hc),
          String.length_utf8EncodeChar]

theorem lineBytes_count_succ (as bs : List UInt8) :
    lineBytes (as.count newline + 1) (as ++ newline :: bs) = as.length + 1 := by
  induction as with
  | nil => simp [lineBytes]
  | cons a as ih =>
    rw [List.cons_append, lineBytes]
    by_cases ha : a = newline
    · rw [if_pos ha, ha, List.count_cons_self, ih, List.length_cons, Nat.add_comm]
    · rw [if_neg ha, List.count_cons_of_ne ha, ih, List.length_cons, Nat.add_comm]

/-- The lines that end within `as` take its bytes up to the last line break. -/
theorem lineBytes_count (as bs : List UInt8) : lineBytes (as.count newline) (as ++ bs) +
    (as.reverse.takeWhile (· ≠ newline)).length = as.length := by
  induction as using List.reverseRecOn generalizing bs with
  | nil => simp [lineBytes]
  | append_singleton as a ih =>
    by_cases ha : a = newline
    · subst ha
      simpa using lineBytes_count_succ as bs
    · have hshorter := ih (a :: bs)
      simp only [List.append_assoc, List.singleton_append, List.count_append, List.reverse_append,
        List.length_append] at hshorter ⊢
      simp [ha] at hshorter ⊢
      omega

/-- **From a place back to its last byte.** The byte before the place is found; where this is a line
break, and not the last byte of the text, the byte behind it is found. -/
theorem offset_after {n : Nat} {cs : List Char} (hn : n ≤ byteCount cs) :
    offset (after n cs) cs =
      if (bytes cs)[n - 1]? = some newline ∧ n < byteCount cs then n else n - 1 := by
  cases n with
  | zero => simp [after_eq, offset, bytesOfLines]
  | succ n =>
    have hlength := length_bytes cs
    obtain ⟨b, hb⟩ : ∃ b, (bytes cs)[n]? = some b :=
      ⟨_, List.getElem?_eq_getElem (by omega : n < (bytes cs).length)⟩
    have htake : (bytes cs).take (n + 1) = (bytes cs).take n ++ [b] := by
      rw [List.take_add_one, hb, Option.toList_some]
    have hcount := lineBytes_count ((bytes cs).take (n + 1)) ((bytes cs).drop (n + 1))
    rw [List.take_append_drop, List.length_take, hlength, Nat.min_eq_left hn] at hcount
    rw [after_eq, offset, bytesOfLines_eq, Nat.add_sub_cancel_left, Nat.add_sub_cancel, hb]
    dsimp only
    by_cases hnewline : b = newline
    · -- The place is at the start of a line: all bytes before it are in lines before its own.
      subst hnewline
      have hcolumn : (((bytes cs).take (n + 1)).reverse.takeWhile (· ≠ newline)).length = 0 := by
        simp [htake]
      rw [hcolumn] at hcount ⊢
      by_cases hend : n + 1 < byteCount cs
      · rw [if_pos ⟨rfl, hend⟩]
        omega
      · rw [if_neg fun h => hend h.2]
        omega
    · have hcolumn : 0 < (((bytes cs).take (n + 1)).reverse.takeWhile (· ≠ newline)).length := by
        simp [htake, hnewline]
      rw [if_neg fun h => hnewline (Option.some.inj h.1)]
      omega

end Position

end MarkupTree.Text

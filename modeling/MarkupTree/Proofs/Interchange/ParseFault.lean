import MarkupTree.Interchange.Load
import MarkupTree.Proofs.Json.Halt

/-!
# The mark of a parse fault

A text that is not JSON is reported with a mark of one byte in it, which is found from the line and
the column of the message. The mark always lies in the text, and it is at the last byte that the
reader has looked at, unless this byte is a line break: then the message is about the start of the
next line, and the mark is at the first byte there (`Node.ofText_parse_mark`).
-/

namespace MarkupTree

open Json Text

/-- Where the mark of a parse fault starts: the byte before the place of the halt, or behind it. -/
theorem Json.Halt.offset_position (text : List Char) (h : Halt) :
    (h.position text).offset text =
      if (bytes text)[h.consumed text - 1]? = some newline ∧ h.consumed text < byteCount text then
        h.consumed text
      else h.consumed text - 1 :=
  Position.offset_after (h.consumed_le text)

namespace Node

/-- **The mark of a parse fault** lies in the text, at the last of the `n` bytes to which the text
was read, or behind it if it is a line break within the text. -/
theorem ofText_parse_mark {text : String} {h : Halt} (hne : text ≠ "")
    (hread : Value.read text = .error h) :
    let bs := text.toUTF8.data.toList
    let n := h.consumed text.toList
    1 ≤ n ∧ n ≤ bs.length ∧
    h.position text.toList = ⟨1 + (bs.take n).count newline,
      ((bs.take n).reverse.takeWhile (· ≠ newline)).length⟩ ∧
    ∃ f start, ofText text = .error f ∧ f.kind = .parse ∧
      f.message = "invalid AST JSON: " ++ h.message text.toList ∧
      f.source = some ⟨sourceName, text, some ⟨start, start⟩⟩ ∧ f.mark? = some (start, 1) ∧
      start + 1 ≤ bs.length ∧
      start = if bs[n - 1]? = some newline ∧ n < bs.length then n else n - 1 := by
  intro bs n
  have hlist : text.toList ≠ [] := by simpa using hne
  have hpos : 1 ≤ n := Halt.consumed_pos (looked_of_read hread) hlist
  have hbs : bs = bytes text.toList := (bytes_toList text).symm
  have hlength : bs.length = byteCount text.toList := by rw [hbs, length_bytes]
  have hle : n ≤ bs.length := hlength ▸ h.consumed_le text.toList
  have hstart := h.offset_position text.toList
  rw [← hbs, ← hlength] at hstart
  have hplace := Position.after_eq n text.toList
  rw [← hbs] at hplace
  refine ⟨hpos, hle, hplace, parseFault text h, _, ?_, rfl, rfl, rfl, ?_, ?_, hstart⟩
  · rw [ofText, hread]
  · simp [Fault.mark?, parseFault]
  · rw [hstart]
    split
    · rename_i hwithin
      exact hwithin.2
    · omega

theorem ofText_parse_mark_second_line :
    let text := "[\n\"é\x01\"]"
    let h : Halt := .flaw .controlCharacter ['\x01', '"', ']'] 1
    text ≠ "" ∧ Value.read text = .error h ∧ h.consumed text.toList = 6 ∧
      h.position text.toList = ⟨2, 4⟩ ∧ ∃ f, ofText text = .error f ∧ f.mark? = some (5, 1) := by
  intro text h
  have htext : text = String.ofList ['[', '\n', '"', 'é', '\x01', '"', ']'] := by decide +kernel
  have hne : text ≠ "" := by decide
  have hread : Value.read text = .error h := by
    rw [Value.read, htext, String.toList_ofList]
    rfl
  have hconsumed : h.consumed text.toList = 6 := by
    rw [htext, String.toList_ofList]
    rfl
  have hbs : text.toUTF8.data.toList = [91, 10, 34, 195, 169, 1, 34, 93] := by decide +kernel
  obtain ⟨-, -, hplace, f, start, hf, -, -, -, hmark, -, hstart⟩ := ofText_parse_mark hne hread
  rw [hconsumed, hbs] at hplace hstart
  cases hstart.trans (if_neg (by decide))
  exact ⟨hne, hread, hconsumed, hplace, f, hf, hmark⟩

/-- **A line break that is at fault is not marked**, but the byte behind it. -/
theorem ofText_parse_mark_newline :
    let text := "\"\nab"
    let h : Halt := .flaw .controlCharacter ['\n', 'a', 'b'] 1
    Value.read text = .error h ∧ h.consumed text.toList = 2 ∧
      (∃ f, ofText text = .error f ∧ f.mark? = some (2, 1)) ∧
      ¬∀ text h, text ≠ "" → Value.read text = .error h →
        ∃ f, ofText text = .error f ∧ f.mark? = some (h.consumed text.toList - 1, 1) := by
  intro text h
  have htext : text = String.ofList ['"', '\n', 'a', 'b'] := by decide +kernel
  have hread : Value.read text = .error h := by
    rw [Value.read, htext, String.toList_ofList]
    rfl
  have hconsumed : h.consumed text.toList = 2 := by
    rw [htext, String.toList_ofList]
    rfl
  have hf : ofText text = .error (parseFault text h) := by rw [ofText, hread]
  have hmark : (parseFault text h).mark? = some (2, 1) := by
    rw [htext]
    decide +kernel
  refine ⟨hread, hconsumed, ⟨_, hf, hmark⟩, fun hall => ?_⟩
  obtain ⟨f, hf', hmark'⟩ := hall text h (by decide) hread
  cases hf.symm.trans hf'
  rw [hmark, hconsumed] at hmark'
  exact absurd hmark' (by decide)

end Node

end MarkupTree

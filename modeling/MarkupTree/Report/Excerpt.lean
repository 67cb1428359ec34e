import MarkupTree.Text.Position

/-!
# Excerpts

The part of a text that is shown around a mark: from the line before its start to the line that ends
with the second line break behind it. A text is measured in stretches, which end at every line
break; what is drawn are lines, which a carriage return alone does not end.
-/

namespace MarkupTree.Report

/-- A stretch of a text and the line break that ends it: a carriage return, a line feed, or the two
in this order. The last stretch may have none. -/
structure Stretch where
  content : List Char
  ending : List Char

namespace Stretch

/-- The bytes of a stretch with its line break. -/
def size (s : Stretch) : Nat := Text.byteCount s.content + Text.byteCount s.ending

/-- The stretches of a text that begins with the characters of `gained`, the last one first. -/
def split (gained : List Char) : List Char → List Stretch
  | [] => if gained.isEmpty then [] else [⟨gained.reverse, []⟩]
  | '\r' :: '\n' :: cs => ⟨gained.reverse, ['\r', '\n']⟩ :: split [] cs
  | c :: cs =>
    if c = '\r' ∨ c = '\n' then ⟨gained.reverse, [c]⟩ :: split [] cs else split (c :: gained) cs

/-- How many stretches stop, with all of their line break, before the byte `start`. -/
def passed (start : Nat) : List Stretch → Nat
  | [] => 0
  | s :: ss =>
    if s.ending ≠ [] ∧ s.size ≤ start then passed (start - s.size) ss + 1 else 0

/-- How many stretches there are up to the second line break behind the byte before `stop`; the line
break that holds this byte is none of the two. The list may have fewer. -/
def reached (stop : Nat) : List Stretch → Nat
  | [] => 0
  | s :: ss =>
    if stop ≤ Text.byteCount s.content then 2
    else if stop ≤ s.size then 3
    else reached (stop - s.size) ss + 1

/-- The bytes of some stretches. -/
def total (ss : List Stretch) : Nat := ss.foldr (fun s n => s.size + n) 0

/-- The place of a byte. The bytes of a line break are one column behind the line. -/
def place (start : Nat) (ss : List Stretch) : Text.Position :=
  let n := passed start ss
  let content := ((ss.drop n).head?.map Stretch.content).getD []
  ⟨n + 1, min (start - total (ss.take n)) (Text.byteCount content)⟩

end Stretch

/-- A line as it is drawn: its number from one, the byte it starts at, its bytes with the line end,
and its characters without it. -/
structure Line where
  number : Nat
  start : Nat
  size : Nat
  content : List Char

namespace Line

/-- The byte after the line. -/
def stop (l : Line) : Nat := l.start + l.size

/-- The lines of a text behind `before` others, which starts at byte `start` with the characters of
`gained`, the last one first. A last line that ends in a carriage return does not count. -/
def split (before start : Nat) (gained : List Char) : List Char → List Line
  | [] =>
    if gained.isEmpty then []
    else
      let number := if gained.head? = some '\r' then before else before + 1
      [⟨number, start, Text.byteCount gained, gained.reverse⟩]
  | c :: cs =>
    if c = '\n' then
      let size := Text.byteCount gained + 1
      let content := if gained.head? = some '\r' then gained.tail else gained
      ⟨before + 1, start, size, content.reverse⟩ :: split (before + 1) (start + size) [] cs
    else split before start (c :: gained) cs

end Line

/-- What is shown around a mark: the place of its first byte, and the lines. -/
structure Excerpt where
  place : Text.Position
  lines : List Line

/-- The excerpt around the bytes from `start` to before `stop`. -/
def Excerpt.around (start stop : Nat) (text : List Char) : Excerpt :=
  let all := Stretch.split [] text
  let before := Stretch.passed start all - 1
  let shown := (all.take (Stretch.reached stop all)).drop before
  { place := Stretch.place start all
    lines := Line.split before (Stretch.total (all.take before)) []
      (shown.flatMap fun s => s.content ++ s.ending) }

end MarkupTree.Report

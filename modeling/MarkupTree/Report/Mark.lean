import MarkupTree.Report.Excerpt

/-!
# Marks

How a range of bytes is drawn into an excerpt. A mark that lies in one line is drawn under it, with
a branch in its middle that leads to the message. One that goes over several lines is drawn in a
gutter before them, and its message hangs from the last line.
-/

namespace MarkupTree.Report

/-! ## Columns -/

/-- How many columns each character takes, from `column` on. A tab leads to the next column that is
divided by four; controls and what is between an escape and the letter `m` take no column, and all
else takes one. -/
def widths (escaped : Bool) (column : Nat) : List Char → List Nat
  | [] => []
  | c :: cs =>
    if escaped then 0 :: widths (c ≠ 'm') column cs
    else if c = '\x1b' then 0 :: widths true column cs
    else
      let n :=
        if c = '\t' then 4 - column % 4
        else if c.toNat < 32 ∨ c.toNat = 127 then 0
        else 1
      n :: widths false (column + n) cs

/-- How many columns a line takes. -/
def width (cs : List Char) : Nat := (widths false 0 cs).foldr (· + ·) 0

/-- The characters that begin before byte `n`. -/
def takeBytes (n : Nat) : List Char → List Char
  | [] => []
  | c :: cs => if n = 0 then [] else c :: takeBytes (n - c.utf8Size) cs

namespace Line

/-- The column of a byte; all of a line's end is one column behind the line. -/
def column (l : Line) (byte : Nat) : Nat :=
  let n := byte - l.start
  width (takeBytes n l.content) + if Text.byteCount l.content < n then 1 else 0

/-- The characters as they are shown: a tab is as many blanks as it takes columns. -/
def shown (l : Line) : String :=
  String.ofList <| (l.content.zip (widths false 0 l.content)).flatMap fun (c, n) =>
    if c = '\t' then List.replicate n ' ' else [c]

end Line

/-! ## Marks in lines -/

/-- How a line takes part in a mark. -/
inductive Part
  | apart
  /-- All of the mark is in the line. -/
  | whole
  /-- The mark starts in the line and goes on behind it. -/
  | opening
  | passing
  /-- The mark started before the line and stops in it. -/
  | closing
  deriving DecidableEq

/-- How the line takes part in the mark from `start` to before `stop`. -/
def Line.part (l : Line) (start stop : Nat) : Part :=
  if l.start ≤ start then
    if stop ≤ l.stop then .whole else if start < l.stop then .opening else .apart
  else if l.start < stop then
    if stop ≤ l.stop then .closing else .passing
  else .apart

namespace Part

/-- Whether the mark goes beyond the line. -/
def isSpread : Part → Bool
  | .opening | .passing | .closing => true
  | .apart | .whole => false

/-- What the gutter shows before the line. -/
def gutter : Part → String
  | .opening => "╭─▶ "
  | .passing => "│   "
  | .closing => "├─▶ "
  | .apart | .whole => "    "

end Part

/-- So many copies of a character. -/
def repeated (n : Nat) (c : Char) : String := String.ofList (List.replicate n c)

/-- A message behind `only` if it has one line, else its lines behind `first` and `further`. -/
def hang (only first further message : String) : List String :=
  match message.splitOn "\n" with
  | [] => []
  | [m] => [only ++ m]
  | m :: ms => (first ++ m) :: ms.map (further ++ ·)

/-- What is drawn under a line that holds the whole mark. -/
def branch (l : Line) (start stop : Nat) (message : String) : List String :=
  let left := l.column start
  let right := max (l.column stop) (left + 1)
  let middle := (left + right) / 2
  let indent := repeated middle ' '
  (repeated left ' ' ++ repeated (middle - left) '─' ++ "┬" ++ repeated (right - middle - 1) '─') ::
    hang (indent ++ "╰── ") (indent ++ "╰─┤ ") (indent ++ "  │ ") message

/-- What is drawn under a line. -/
def underline (l : Line) (start stop : Nat) (message : String) : List String :=
  match l.part start stop with
  | .whole => branch l start stop message
  | .closing => hang "╰──── " "╰──┤ " "   │ " message
  | .apart | .opening | .passing => []

/-- The lines of an excerpt with the mark from `start` to before `stop`, in a frame. -/
def Excerpt.draw (e : Excerpt) (name : String) (start stop : Nat) (message : String) :
    List String :=
  let digits := (toString ((e.lines.getLast?.map Line.number).getD 0)).length
  let margin := repeated (digits + 2) ' '
  let isSpread := e.lines.any fun l => (l.part start stop).isSpread
  let body := e.lines.flatMap fun l =>
    let number := toString l.number
    let gutter := if isSpread then (l.part start stop).gutter else ""
    (" " ++ repeated (digits - number.length) ' ' ++ number ++ " │ " ++ gutter ++ l.shown) ::
      (underline l start stop message).map (margin ++ "· " ++ ·)
  let place := toString e.place.line ++ ":" ++ toString (e.place.column + 1)
  (margin ++ "╭─[" ++ name ++ ":" ++ place ++ "]") :: body ++ [margin ++ "╰────"]

end MarkupTree.Report

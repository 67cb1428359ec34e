/-!
# Places in a text

A place is a number of bytes of UTF-8, or a line and a column: lines are counted from one, the
column is the number of bytes of the line up to the place. `Position.after` goes from the first to
the second and `Position.offset` back to the byte that a message points at.
-/

namespace MarkupTree.Text

/-- The number of bytes that the characters take. -/
def byteCount (cs : List Char) : Nat := cs.foldr (fun c n => c.utf8Size + n) 0

/-- A line, from one, and the bytes of it that lie before the place. -/
structure Position where
  line : Nat
  column : Nat
  deriving DecidableEq

namespace Position

/-- Where reading stands `n` bytes further on. -/
def advance (n : Nat) : List Char → Position → Position
  | [], p => p
  | c :: cs, p =>
    if n < c.utf8Size then ⟨p.line, p.column + n⟩
    else if c = '\n' then advance (n - 1) cs ⟨p.line + 1, 0⟩
    else advance (n - c.utf8Size) cs ⟨p.line, p.column + c.utf8Size⟩

/-- The place after the first `n` bytes of a text, or after all of it. -/
def after (n : Nat) (cs : List Char) : Position := advance n cs ⟨1, 0⟩

/-- How many bytes the first `n` lines take, with their line ends. -/
def bytesOfLines : Nat → List Char → Nat
  | 0, _ => 0
  | _ + 1, [] => 0
  | n + 1, c :: cs =>
    c.utf8Size + if c = '\n' then bytesOfLines n cs else bytesOfLines (n + 1) cs

/-- The byte that the last column up to the place is about, and never beyond the last byte of the
text. -/
def offset (p : Position) (cs : List Char) : Nat :=
  min (bytesOfLines (p.line - 1) cs + (p.column - 1)) (byteCount cs - 1)

/-- How a message gives the place. -/
def text (p : Position) : String :=
  "line " ++ toString p.line ++ " column " ++ toString p.column

end Position

end MarkupTree.Text

import MarkupTree.Json.NumberLiteral
import MarkupTree.Json.StringLiteral

/-!
# Reading JSON

Readers take the unread text and answer a value with what is left of the text. `elements` and
`members` walk a container by the reader of one item or member that they are given, so that values
of any shape are read by the same walk; `value` reads any value. Containers may nest `maxDepth`
deep.

No walk takes more turns than the text has characters. That number is passed along as `turns`.
-/

namespace MarkupTree.Json

/-- A reader of values of type `α`. -/
abbrev Reader (α : Type) := List Char → Except Halt (α × List Char)

/-- How deep containers may nest. -/
def maxDepth : Nat := 127

/-- Blank, tab, and the two line ends. -/
def isBlank (c : Char) : Bool := c = ' ' || c = '\t' || c = '\n' || c = '\r'

/-- What follows the blanks. -/
def skipBlanks (s : List Char) : List Char := s.dropWhile isBlank

/-- Reads the rest of a word of which the first letter is read. -/
def ident : List Char → List Char → Except Halt (List Char)
  | [], s => .ok s
  | _ :: _, [] => .error (.flaw .endInValue [] 0)
  | e :: es, c :: s => if c = e then ident es s else .error (.here .expectedIdent (c :: s))

/-- Reads a value that is no container; `s` does not begin with blanks. -/
def plainValue : Reader Value
  | [] => .error (.here .endInValue [])
  | c :: s =>
    match c with
    | 'n' => do return (.null, ← ident ['u', 'l', 'l'] s)
    | 't' => do return (.bool true, ← ident ['r', 'u', 'e'] s)
    | 'f' => do return (.bool false, ← ident ['a', 'l', 's', 'e'] s)
    | '"' => do
      let (v, s) ← stringBody s
      return (.string v, s)
    | '-' => do
      let (n, s) ← numberBody true s
      return (.number n, s)
    | c =>
      if c.isDigit then do
        let (n, s) ← numberBody false (c :: s)
        return (.number n, s)
      else .error (.here .expectedValue (c :: s))

/-! ## Walking containers -/

/-- Goes to the next element of an array: whether there is one, and what is unread then. -/
def nextElement (first : Bool) (s : List Char) : Except Halt (Bool × List Char) :=
  match skipBlanks s with
  | [] => .error (.here .endInList [])
  | c :: s =>
    if c = ']' then .ok (false, c :: s)
    else if first then .ok (true, c :: s)
    else if c = ',' then
      match skipBlanks s with
      | [] => .error (.here .endInValue [])
      | d :: s => if d = ']' then .error (.here .trailingComma (d :: s)) else .ok (true, d :: s)
    else .error (.here .expectedListCommaOrEnd (c :: s))

/-- Goes to the next member of an object: its key, if there is one, and what is unread then. -/
def nextKey (first : Bool) (s : List Char) : Except Halt (Option String × List Char) :=
  match skipBlanks s with
  | [] => .error (.here .endInObject [])
  | c :: s =>
    if c = '\x7d' then .ok (none, c :: s)
    else if first then
      if c = '"' then do
        let (k, s) ← stringBody s
        return (some k, s)
      else .error (.here .keyMustBeString (c :: s))
    else if c = ',' then
      match skipBlanks s with
      | [] => .error (.here .endInValue [])
      | d :: s =>
        if d = '"' then do
          let (k, s) ← stringBody s
          return (some k, s)
        else if d = '\x7d' then .error (.here .trailingComma (d :: s))
        else .error (.here .keyMustBeString (d :: s))
    else .error (.here .expectedObjectCommaOrEnd (c :: s))

/-- Reads the colon after a key. -/
def colon (s : List Char) : Except Halt (List Char) :=
  match skipBlanks s with
  | [] => .error (.here .endInObject [])
  | c :: s => if c = ':' then .ok s else .error (.here .expectedColon (c :: s))

/-- Reads the closing bracket after the last element that is wanted. -/
def closeArray (s : List Char) : Except Halt (List Char) :=
  match skipBlanks s with
  | [] => .error (.here .endInList [])
  | c :: s =>
    if c = ']' then .ok s
    else if c = ',' then
      match skipBlanks s with
      | ']' :: s => .error (.here .trailingComma (']' :: s))
      | s => .error (.here .trailingCharacters s)
    else .error (.here .trailingCharacters (c :: s))

variable {α σ : Type}

/-- Reads elements and the closing bracket. -/
def elements (item : Reader α) : (turns : Nat) → (first : Bool) → Reader (List α)
  | 0, _, s => .error (.here .endInList s)
  | turns + 1, first, s => do
    let (more, s) ← nextElement first s
    if more then
      let (a, s) ← item s
      let (as, s) ← elements item turns false s
      return (a :: as, s)
    else return ([], s.drop 1)

/-- Reads members and the closing brace. The step for a member is given its key, and reads on from
before the colon. -/
def members (step : σ → String → Reader σ) : (turns : Nat) → (first : Bool) → σ → Reader σ
  | 0, _, _, s => .error (.here .endInObject s)
  | turns + 1, first, acc, s => do
    let (key, s) ← nextKey first s
    match key with
    | some k =>
      let (acc, s) ← step acc k s
      members step turns false acc s
    | none => return (acc, s.drop 1)

/-! ## Values -/

/-- Reads the value of a member, and adds the member in front of those before it. -/
def addMember (item : Reader α) (acc : List (String × α)) (k : String) :
    Reader (List (String × α)) := fun s => do
  let s ← colon s
  let (v, s) ← item s
  return ((k, v) :: acc, s)

/-- Reads a value. Values in a container are read by `inner`; there may be no container where there
is none. -/
def valueWith (turns : Nat) (inner : Option (Reader Value)) : Reader Value := fun s =>
  match skipBlanks s with
  | '[' :: s =>
    match inner with
    | none => .error (.here .nestedTooDeep ('[' :: s))
    | some item => do
      let (items, s) ← elements item turns true s
      return (.array items, s)
  | '\x7b' :: s =>
    match inner with
    | none => .error (.here .nestedTooDeep ('\x7b' :: s))
    | some item => do
      let (ms, s) ← members (addMember item) turns true [] s
      return (.object ms.reverse, s)
  | s => plainValue s

/-- Reads a value in which containers nest at most `depth` deep. -/
def value (turns : Nat) : (depth : Nat) → Reader Value
  | 0 => valueWith turns none
  | depth + 1 => valueWith turns (some (value turns depth))

/-! ## Whole texts -/

/-- Reads a whole text by a reader that is told how many turns it may take. -/
def readAll (reader : (turns : Nat) → Reader α) (text : List Char) : Except Halt α := do
  let (a, s) ← reader (text.length + 1) text
  match skipBlanks s with
  | [] => return a
  | s => throw (.here .trailingCharacters s)

/-- The value that a text stands for, with the members of objects as they are written. -/
def Value.read (text : String) : Except Halt Value :=
  readAll (fun turns => value turns maxDepth) text.toList

end MarkupTree.Json

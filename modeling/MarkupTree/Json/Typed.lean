import MarkupTree.Json.Reader

/-!
# Reading values of a wanted type

A value of a wrong shape is found while the text is read, so it is reported even where the text is
broken later on, and its place is known: for a plain value what follows it, for a container its
bracket. Where the whole of a container is to blame, or something that was read into a value first,
the place is where the reader leaves the container around it (`Halt.leaveArray`,
`Halt.leaveObject`); where there is no container around it, the message names no place.
-/

namespace MarkupTree.Json

/-! ## Places -/

namespace Halt

/-- Settles the place of a mismatch at what is unread when an array is left: what follows the
closing bracket or the comma where one of them comes next. -/
def leaveArray : Halt → Halt
  | .mismatch what unread false =>
    match skipBlanks unread with
    | ']' :: s => .mismatch what s true
    | ',' :: s => .mismatch what (skipBlanks s) true
    | s => .mismatch what s true
  | h => h

/-- Settles the place of a mismatch at what is unread when an object is left: what follows the
closing brace where it comes next. -/
def leaveObject : Halt → Halt
  | .mismatch what unread false =>
    match skipBlanks unread with
    | '\x7d' :: s => .mismatch what s true
    | s => .mismatch what s true
  | h => h

end Halt

/-- The answer of a decoder of values, as of a reader that has read the value already. -/
def place {α : Type} (r : Except Mismatch α) (unread : List Char) (placed : Bool) :
    Except Halt (α × List Char) :=
  match r with
  | .ok a => .ok (a, unread)
  | .error what => .error (.mismatch what unread placed)

/-- Refuses the value that comes next for its type. A container is refused at its bracket, anything
else when it is read. -/
def refuse (wanted : String) (s : List Char) : Halt :=
  match s with
  | '[' :: s => .mismatch (.invalidType .sequence wanted) ('[' :: s) true
  | '\x7b' :: s => .mismatch (.invalidType .map wanted) ('\x7b' :: s) true
  | s =>
    match plainValue s with
    | .ok (v, s) => .mismatch (.invalidType v.found wanted) s true
    | .error h => h

/-! ## Plain values -/

/-- Reads a string and hands it on. -/
def stringAs {α : Type} (wanted : String) (f : String → Except Mismatch α) : Reader α := fun s =>
  match skipBlanks s with
  | '"' :: s => do
    let (v, s) ← stringBody s
    place (f v) s true
  | s => .error (refuse wanted s)

/-- Reads a string. -/
def stringText : Reader String := stringAs "a string" .ok

/-- Reads a truth value. -/
def boolText : Reader Bool := fun s =>
  match skipBlanks s with
  | 't' :: s => do return (true, ← ident ['r', 'u', 'e'] s)
  | 'f' :: s => do return (false, ← ident ['a', 'l', 's', 'e'] s)
  | s => .error (refuse "a boolean" s)

/-- Reads `null`, or a value by the given reader. -/
def nullable {α : Type} (item : Reader α) : Reader (Option α) := fun s =>
  match skipBlanks s with
  | 'n' :: s => do return (none, ← ident ['u', 'l', 'l'] s)
  | s => do
    let (a, s) ← item s
    return (some a, s)

/-! ## Containers -/

/-- Reads an array or an object by a reader for what follows the opening bracket. Each of them is
given the depth that is left inside. -/
def container {α : Type} (wanted : String) (depth : Nat) (array object : Option (Nat → Reader α)) :
    Reader α := fun s =>
  match skipBlanks s, depth, array, object with
  | '[' :: s, 0, some _, _ => .error (.here .nestedTooDeep ('[' :: s))
  | '[' :: s, depth + 1, some items, _ => (items depth s).mapError Halt.leaveArray
  | '\x7b' :: s, 0, _, some _ => .error (.here .nestedTooDeep ('\x7b' :: s))
  | '\x7b' :: s, depth + 1, _, some ms => (ms depth s).mapError Halt.leaveObject
  | s, _, _, _ => .error (refuse wanted s)

/-- Reads a further field of a sequence, if there is one. -/
def nextField {α : Type} (item : Reader α) (first : Bool) : Reader (Option α) := fun s => do
  let (more, s) ← nextElement first s
  if more then
    let (a, s) ← item s
    return (some a, s)
  else return (none, s)

/-! ## Whole texts -/

/-- Reads a value, and makes of it what is wanted. -/
def valueAs {α : Type} (type : String) (f : Value → Option α) (turns depth : Nat) : Reader α :=
  fun s => do
    let (v, s) ← value turns depth s
    place ((f v).elim (.error (.noVariant type)) .ok) s false

/-- Decodes a whole text. -/
def decodeWith {α : Type} (reader : (turns depth : Nat) → Reader α) (text : String) :
    Except String α :=
  match readAll (fun turns => reader turns maxDepth) text.toList with
  | .ok a => .ok a
  | .error h => .error (h.message text.toList)

end MarkupTree.Json

import MarkupTree.Json.Reader

/-!
# Skipping values

The value of a field that nobody asked for is passed over. Its form is checked, but less is asked of
it: containers may nest as deep as they like, numbers may be out of range, and units of UTF-16 may
lack their partner.
-/

namespace MarkupTree.Json

/-- An open container. -/
inductive Bracket
  | list
  | object

/-- Passes over an exponent after its letter. -/
def skipExponent (s : List Char) : Except Halt (List Char) :=
  let s :=
    match s with
    | '+' :: s => s
    | '-' :: s => s
    | s => s
  match s with
  | [] => .error (.flaw .invalidNumber [] 0)
  | c :: s =>
    if c.isDigit then .ok (s.dropWhile Char.isDigit) else .error (.here .invalidNumber (c :: s))

/-- Passes over what may follow the digits of a number: an exponent. -/
def skipAfterDigits : List Char → Except Halt (List Char)
  | 'e' :: s => skipExponent s
  | 'E' :: s => skipExponent s
  | s => .ok s

/-- Passes over what may follow the digits before the point. -/
def skipAfterInteger : List Char → Except Halt (List Char)
  | '.' :: s =>
    if startsWithDigit s then skipAfterDigits (s.dropWhile Char.isDigit)
    else .error (.here .invalidNumber s)
  | s => skipAfterDigits s

/-- Passes over a number after its sign. -/
def skipNumber : List Char → Except Halt (List Char)
  | [] => .error (.flaw .invalidNumber [] 0)
  | '0' :: s =>
    if startsWithDigit s then .error (.here .invalidNumber s) else skipAfterInteger s
  | c :: s =>
    if c.isDigit then skipAfterInteger (s.dropWhile Char.isDigit)
    else .error (.here .invalidNumber (c :: s))

/-- Passes over a string after its opening quotation mark. -/
def skipString (s : List Char) : Except Halt (List Char) :=
  match stringFrom .lax .plain [] s with
  | .ok (_, s) => .ok s
  | .error h => .error h

/-- Passes over a key and its colon. -/
def skipKey (s : List Char) : Except Halt (List Char) :=
  match skipBlanks s with
  | [] => .error (.here .endInObject [])
  | c :: s =>
    if c = '"' then do
      let s ← skipString s
      colon s
    else .error (.here .keyMustBeString (c :: s))

/-- Passes over a value that is no container, or over the opening of one. -/
def skipStart (s : List Char) : Except Halt (Option Bracket × List Char) :=
  match skipBlanks s with
  | [] => .error (.here .endInValue [])
  | c :: s =>
    match c with
    | 'n' => do return (none, ← ident ['u', 'l', 'l'] s)
    | 't' => do return (none, ← ident ['r', 'u', 'e'] s)
    | 'f' => do return (none, ← ident ['a', 'l', 's', 'e'] s)
    | '"' => do return (none, ← skipString s)
    | '-' => do return (none, ← skipNumber s)
    | '[' => .ok (some .list, s)
    | '\x7b' => .ok (some .object, s)
    | c =>
      if c.isDigit then do return (none, ← skipNumber (c :: s))
      else .error (.here .expectedValue (c :: s))

/-- Goes on after a value inside the open containers, the innermost first: closes those that end
here, up to where another value is due. Answers the containers that are open then, none when the
whole value is passed over. -/
def skipClose : List Bracket → List Char → Except Halt (List Bracket × List Char)
  | [], s => .ok ([], s)
  | .list :: outer, s =>
    match skipBlanks s with
    | [] => .error (.here .endInList [])
    | c :: s =>
      if c = ',' then .ok (.list :: outer, s)
      else if c = ']' then skipClose outer s
      else .error (.here .expectedListCommaOrEnd (c :: s))
  | .object :: outer, s =>
    match skipBlanks s with
    | [] => .error (.here .endInObject [])
    | c :: s =>
      if c = ',' then do return (.object :: outer, ← skipKey s)
      else if c = '\x7d' then skipClose outer s
      else .error (.here .expectedObjectCommaOrEnd (c :: s))

/-- Goes on after the opening of a container: closes it where it is empty. -/
def skipOpen (b : Bracket) (outer : List Bracket) (s : List Char) :
    Except Halt (List Bracket × List Char) :=
  match b, skipBlanks s with
  | .list, [] => .error (.here .endInList [])
  | .object, [] => .error (.here .endInObject [])
  | .list, ']' :: s => skipClose outer s
  | .object, '\x7d' :: s => skipClose outer s
  | .list, s => .ok (.list :: outer, s)
  | .object, s => do return (.object :: outer, ← skipKey s)

/-- Passes over the value that is due inside the open containers, and on to their end. -/
def skipInside : (turns : Nat) → List Bracket → List Char → Except Halt (List Char)
  | 0, _, s => .error (.here .endInValue s)
  | turns + 1, outer, s => do
    let (b, s) ← skipStart s
    let (outer, s) ←
      match b with
      | none => skipClose outer s
      | some b => skipOpen b outer s
    if outer.isEmpty then return s else skipInside turns outer s

/-- Passes over a value. -/
def skipValue (turns : Nat) (s : List Char) : Except Halt (List Char) := skipInside turns [] s

end MarkupTree.Json

import MarkupTree.Json.Halt

/-!
# Reading strings

A string is read character by character after its opening quotation mark, by a machine that knows
where in an escape it stands (`Mode`). Four hexadecimal digits name a unit of UTF-16; the two units
of a pair are put together, and in a string that is kept (`Pairing.strict`) no unit may lack its
partner.
-/

namespace MarkupTree.Json

/-- Whether units of UTF-16 have to come in proper pairs. They need not where a string is only
skipped. -/
inductive Pairing
  | strict
  | lax
  deriving DecidableEq

/-- Where in a string the reader stands. -/
inductive Mode
  | plain
  /-- After a backslash. -/
  | escape
  /-- After `count` digits of an escape that name `code` so far; `high` is the first unit of a pair,
  if there is one. -/
  | hex (count code : Nat) (high : Option Nat)
  /-- Before the backslash of the second unit of a pair. -/
  | partner (high : Nat)
  /-- Before the letter of the second unit of a pair. -/
  | partnerLetter (high : Nat)

/-- The value of a hexadecimal digit. -/
def hexValue? (c : Char) : Option Nat :=
  if '0' ≤ c ∧ c ≤ '9' then some (c.toNat - 48)
  else if 'a' ≤ c ∧ c ≤ 'f' then some (c.toNat - 87)
  else if 'A' ≤ c ∧ c ≤ 'F' then some (c.toNat - 55)
  else none

/-- The characters with an escape of one letter. -/
def simpleEscape? (c : Char) : Option Char :=
  match c with
  | '"' => some '"'
  | '\\' => some '\\'
  | '/' => some '/'
  | 'b' => some '\x08'
  | 'f' => some '\x0c'
  | 'n' => some '\n'
  | 'r' => some '\r'
  | 't' => some '\t'
  | _ => none

/-- The first unit of a pair. -/
def isHighUnit (n : Nat) : Bool := 0xd800 ≤ n && n ≤ 0xdbff

/-- The second unit of a pair. -/
def isLowUnit (n : Nat) : Bool := 0xdc00 ≤ n && n ≤ 0xdfff

/-- The character that a pair of units stands for. -/
def ofUnits (high low : Nat) : Char :=
  Char.ofNat (0x10000 + (high - 0xd800) * 0x400 + (low - 0xdc00))

/-- Takes in a whole unit; `rest` is unread. -/
def takeUnit (pairing : Pairing) (high : Option Nat) (code : Nat) (rest : List Char) :
    Except Halt (Mode × Option Char) :=
  match pairing, high with
  | .lax, _ => .ok (.plain, none)
  | .strict, some h =>
    if isLowUnit code then .ok (.plain, some (ofUnits h code))
    else .error (.flaw .loneSurrogate rest 0)
  | .strict, none =>
    if isLowUnit code then .error (.flaw .loneSurrogate rest 0)
    else if isHighUnit code then .ok (.partner code, none)
    else .ok (.plain, some (Char.ofNat code))

/-- Takes one digit of an escape. The four digits are looked at together: there have to be four
bytes for them before the end of the text, and a wrong one is reported after all four. -/
def takeDigit (pairing : Pairing) (count code : Nat) (high : Option Nat) (c : Char)
    (rest : List Char) : Except Halt (Mode × Option Char) :=
  match hexValue? c with
  | some d =>
    if count < 3 then .ok (.hex (count + 1) (code * 16 + d) high, none)
    else takeUnit pairing high (code * 16 + d) rest
  | none =>
    if Text.byteCount (c :: rest) < 4 - count then .error (.flaw .endInString [] 0)
    else .error (.flaw .invalidEscape (c :: rest) (4 - count))

/-- Takes one character other than a closing quotation mark; answers where the reader stands then,
and the character that is gained, if one is. -/
def Mode.take (pairing : Pairing) (c : Char) (rest : List Char) :
    Mode → Except Halt (Mode × Option Char)
  | .plain =>
    if c = '\\' then .ok (.escape, none)
    else if c.toNat < 32 then
      .error (.flaw .controlCharacter (c :: rest) (if pairing = .strict then 1 else 0))
    else .ok (.plain, some c)
  | .escape =>
    if c = 'u' then .ok (.hex 0 0 none, none)
    else
      match simpleEscape? c with
      | some d => .ok (.plain, some d)
      | none => .error (.here .invalidEscape (c :: rest))
  | .hex count code high => takeDigit pairing count code high c rest
  | .partner high =>
    if c = '\\' then .ok (.partnerLetter high, none) else .error (.here .unpairedEscape (c :: rest))
  | .partnerLetter high =>
    if c = 'u' then .ok (.hex 0 0 (some high), none)
    else .error (.here .unpairedEscape (c :: rest))

/-- Reads on to the closing quotation mark. `gained` holds the characters so far, the last one
first. -/
def stringFrom (pairing : Pairing) (mode : Mode) (gained : List Char) :
    List Char → Except Halt (String × List Char)
  | [] => .error (.flaw .endInString [] 0)
  | c :: rest =>
    match mode, c with
    | .plain, '"' => .ok (String.ofList gained.reverse, rest)
    | mode, c =>
      match mode.take pairing c rest with
      | .ok (mode, d) => stringFrom pairing mode (d.toList ++ gained) rest
      | .error h => .error h

/-- Reads a string after its opening quotation mark. -/
def stringBody (s : List Char) : Except Halt (String × List Char) := stringFrom .strict .plain [] s

end MarkupTree.Json

import MarkupTree.Json.Mismatch
import MarkupTree.Text.Position

/-!
# What brings a reader to a halt

A reader stops where the text is not JSON (`Halt.flaw`) or where a value is not of the shape that is
asked for (`Halt.mismatch`). Either way it tells what is unread, and the place in a message is
counted from there.
-/

namespace MarkupTree.Json

/-- What is wrong with the form of a text. -/
inductive Flaw
  | endInValue
  | endInList
  | endInObject
  | endInString
  | expectedValue
  | expectedIdent
  | expectedColon
  | expectedListCommaOrEnd
  | expectedObjectCommaOrEnd
  | keyMustBeString
  | trailingComma
  | trailingCharacters
  | invalidNumber
  | numberOutOfRange
  | invalidEscape
  | unpairedEscape
  | loneSurrogate
  | controlCharacter
  | nestedTooDeep
  deriving DecidableEq

/-- How the flaw is put. -/
def Flaw.message : Flaw → String
  | .endInValue => "EOF while parsing a value"
  | .endInList => "EOF while parsing a list"
  | .endInObject => "EOF while parsing an object"
  | .endInString => "EOF while parsing a string"
  | .expectedValue => "expected value"
  | .expectedIdent => "expected ident"
  | .expectedColon => "expected `:`"
  | .expectedListCommaOrEnd => "expected `,` or `]`"
  | .expectedObjectCommaOrEnd => "expected `,` or `\x7d`"
  | .keyMustBeString => "key must be a string"
  | .trailingComma => "trailing comma"
  | .trailingCharacters => "trailing characters"
  | .invalidNumber => "invalid number"
  | .numberOutOfRange => "number out of range"
  | .invalidEscape => "invalid escape"
  | .unpairedEscape => "unexpected end of hex escape"
  | .loneSurrogate => "lone leading surrogate in hex escape"
  | .controlCharacter => "control character (\\u0000-\\u001F) found while parsing a string"
  | .nestedTooDeep => "recursion limit exceeded"

/-- Why a reader stopped, and where. -/
inductive Halt
  /-- The text is not JSON. The reader has looked at `seen` bytes of what is unread. -/
  | flaw (what : Flaw) (unread : List Char) (seen : Nat)
  /-- A value is of the wrong shape. The place counts only once it is `placed`. -/
  | mismatch (what : Mismatch) (unread : List Char) (placed : Bool)

namespace Halt

/-- Stops at a character that is looked at and does not fit, or at the end of the text. -/
def here (what : Flaw) (unread : List Char) : Halt := .flaw what unread 1

/-- How many bytes of the text were read or looked at. -/
def consumed (text : List Char) : Halt → Nat
  | .flaw _ unread seen =>
    min (Text.byteCount text) (Text.byteCount text - Text.byteCount unread + seen)
  | .mismatch _ unread _ => Text.byteCount text - Text.byteCount unread

/-- The place of the halt in the text. -/
def position (text : List Char) (h : Halt) : Text.Position := .after (h.consumed text) text

/-- The message, with the place where there is one. -/
def message (text : List Char) (h : Halt) : String :=
  let place := " at " ++ (h.position text).text
  match h with
  | .flaw what _ _ => what.message ++ place
  | .mismatch what _ true => what.message ++ place
  | .mismatch what _ false => what.message

end Halt

end MarkupTree.Json

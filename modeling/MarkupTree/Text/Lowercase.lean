import MarkupTree.Unicode.Cased
import MarkupTree.Unicode.LowerCase

/-!
# Lower case of a text

Tags are written in lower case, by the full mapping of Unicode without regard to language. Two
characters need more than a table: the dotted capital I becomes an i with a dot above, and a capital
sigma becomes the final sigma at the end of a word (`isFinal`).
-/

namespace MarkupTree.Text

open Unicode

/-- Whether the nearest character that is not case-ignorable is cased. -/
def meetsCased (cs : List Char) : Bool :=
  match cs.dropWhile isCaseIgnorable with
  | [] => false
  | c :: _ => isCased c

/-- A sigma ends a word when it follows a letter and none follows it; `before` is read backwards. -/
def isFinal (before after : List Char) : Bool := meetsCased before && !meetsCased after

/-- The lower case of one character between what stands before it, read backwards, and after it. -/
def lowerIn (before : List Char) (c : Char) (after : List Char) : List Char :=
  if c = 'Σ' then [if isFinal before after then 'ς' else 'σ']
  else if c = 'İ' then ['i', '\u0307']
  else [lower c]

/-- The lower case of the characters after `before`. -/
def lowercaseFrom (before : List Char) : List Char → List Char
  | [] => []
  | c :: after => lowerIn before c after ++ lowercaseFrom (c :: before) after

/-- The lower case of a text. -/
def lowercase (s : String) : String := String.ofList (lowercaseFrom [] s.toList)

end MarkupTree.Text

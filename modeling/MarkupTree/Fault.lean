/-!
# Faults

What goes wrong while a tree is defined, loaded or parsed, as a reader of messages sees it: the
kind, the message, and what was learnt on the way: a help, the text with the place at fault, the
cause.
-/

namespace MarkupTree

/-- The three kinds of fault. -/
inductive FaultKind
  /-- The arguments of a tag have no accepted shape. -/
  | definition
  /-- A value is not a tree that could be rendered. -/
  | render
  /-- A text is not JSON. -/
  | parse
  deriving DecidableEq

namespace FaultKind

/-- The name of the kind at the head of a message. -/
def name : FaultKind → String
  | .definition => "Definition"
  | .render => "Render"
  | .parse => "Parse"

/-- The code that stands at the head of a report. -/
def code : FaultKind → String
  | .definition => "hyperspeed::definition"
  | .render => "hyperspeed::render"
  | .parse => "hyperspeed::parse"

end FaultKind

/-- A range of bytes; `stop` is the first one after it. -/
structure Span where
  start : Nat
  stop : Nat
  deriving DecidableEq

/-- A named text, and the range in it that a fault is about. -/
structure Source where
  name : String
  text : String
  span : Option Span
  deriving DecidableEq

/-- A fault with all that is known about it. -/
structure Fault where
  kind : FaultKind
  message : String
  help : Option String := none
  source : Option Source := none
  cause : Option String := none
  deriving DecidableEq

namespace Fault

/-- The message with the kind before it. -/
def display (f : Fault) : String := f.kind.name ++ " error: " ++ f.message

/-- Gives a help in place of any former one. -/
def withHelp (f : Fault) (help : String) : Fault := { f with help := some help }

/-- Gives the text that the fault is about, with or without a range, in place of any former one. -/
def withSource (f : Fault) (name text : String) (span : Option Span) : Fault :=
  { f with source := some ⟨name, text, span⟩ }

/-- Gives the cause in place of any former one. -/
def withCause (f : Fault) (cause : String) : Fault := { f with cause := some cause }

/-- The mark that a range makes in its text: its start and its length, at least one byte. -/
def mark? (f : Fault) : Option (Nat × Nat) := do
  let span ← (← f.source).span
  return (span.start, max (span.stop - span.start) 1)

end Fault

end MarkupTree

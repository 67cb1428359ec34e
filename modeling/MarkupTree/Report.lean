import MarkupTree.Fault
import MarkupTree.Report.Mark

/-!
# Reports

A fault as several lines for a reader: the code, the message with its cause, the marked place in the
source with a line around it, and the help. Texts of more than one line are indented behind their
first line. No line is broken for being long.
-/

namespace MarkupTree.Report

/-- A line without the blanks at its end. -/
def withoutBlanks (s : String) : String :=
  String.ofList (s.toList.reverse.dropWhile (· = ' ')).reverse

/-- The lines of a text without the blanks at their ends, the first one behind `first`, the others
behind `further`. -/
def paragraph (first further text : String) : List String :=
  match (text.splitOn "\n").map withoutBlanks with
  | [] => []
  | l :: ls => (first ++ l) :: ls.map (further ++ ·)

/-- What is told instead where a mark lies beyond the end of the text. -/
def beyond (start length : Nat) (message : String) : String :=
  "  [Failed to read contents for label `" ++ message ++ "` (offset: " ++ toString start ++
    ", length: " ++ toString length ++ "): OutOfBounds]"

/-- The lines about the source of a fault, if it has a marked one. -/
def sourceLines (f : Fault) : List String :=
  match f.source, f.mark? with
  | some source, some (start, length) =>
    let stop := start + length
    if stop ≤ source.text.utf8ByteSize + 1 then
      (Excerpt.around start stop source.text.toList).draw source.name start stop f.message
    else [beyond start length f.message]
  | _, _ => []

/-- The lines of a report. -/
def lines (f : Fault) : List String :=
  [f.kind.code, ""] ++
    paragraph "  × " "  │ " f.display ++
    (f.cause.map (paragraph "  ╰─▶ " "      ")).getD [] ++
    sourceLines f ++
    (f.help.map (paragraph "  help: " "        ")).getD []

end MarkupTree.Report

namespace MarkupTree

/-- The report of a fault, each line of it ended. -/
def Fault.report (f : Fault) : String := String.join ((Report.lines f).map (· ++ "\n"))

end MarkupTree

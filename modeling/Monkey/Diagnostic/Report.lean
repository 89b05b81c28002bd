import Monkey.Diagnostic.Basic
import Monkey.Source.Line
import Monkey.Text.Blank

/-!
# Reports

A report shows a diagnostic to the writer of the text: its name and tip, the file, and the line in
question with a caret under the place. The caret stands at the end of a field of dashes, and a field
cannot be wider than 65535 characters: there is no report of a place further on in its line.
-/

namespace Monkey

namespace Text

/-- The greatest width of a field. -/
def fieldLimit : Nat := 65535

/-- A text at the right end of a field that is filled up in front of it. No field is wider than the
limit. -/
def alignRight? (fill : Char) (field : Nat) (text : String) : Option String :=
  if field ≤ fieldLimit then
    some (String.ofList (List.replicate (field - text.length) fill) ++ text)
  else none

end Text

namespace Line

/-- Whether a character counts as indentation. -/
def isIndent (c : Char) : Bool := c == ' ' || c == '\t'

/-- The line as a report shows it: without its indentation and without blank space at its end. -/
def excerpt (l : Line) : List Char := Text.trimEnd (l.text.dropWhile isIndent)

/-- How far the place lies behind the indentation, in bytes. -/
def indentedColumn (l : Line) : Nat := l.column - (l.text.takeWhile isIndent).length

/-- The line under a number in the margin, with a caret under the place, unless the place lies too
far on in the line. -/
def report? (l : Line) : Option String := do
  let number := toString l.number
  let margin ← Text.alignRight? ' ' (number.length + 2) "|"
  let caret ← Text.alignRight? '-' (l.indentedColumn + 1) "^"
  return margin ++ "\n" ++ number ++ " | " ++ String.ofList l.excerpt ++ "\n" ++
    margin ++ " " ++ caret ++ "\n"

end Line

namespace Diagnostic

/-- The lines of a report that do not hang on the source. -/
def heading (d : Diagnostic) (file : String) : String :=
  let tip :=
    match d.cause.tip? with
    | some tip => " (" ++ tip ++ ")"
    | none => ""
  "Error: " ++ d.cause.name ++ tip ++ "\n-> " ++ file ++ "\n"

/-- A diagnostic with the line of the source it is about, if its place lies in the source. There is
no report if the line has none. -/
def report? (d : Diagnostic) (source file : String) : Option String :=
  match Line.find? source d.position with
  | some line => line.report?.map (d.heading file ++ ·)
  | none => some (d.heading file)

example : report? ⟨.noOperand ⟨.illegal, "@", ⟨10, 11⟩⟩, 10⟩ "1;\n  let a @" "main" =
    some ("Error: NoPrefixHandler (Unrecognised character `@`)\n-> main\n" ++
      "  |\n2 | let a @\n  | -----^\n") := by decide +kernel

example : report? ⟨.overflow ⟨.integer, "9", ⟨0, 1⟩⟩, 3⟩ "9" "main" =
    some ("Error: NumberParseError (Invalid number: `9`, is it above the integer limit?)\n" ++
      "-> main\n") := by
  decide +kernel

end Diagnostic

end Monkey

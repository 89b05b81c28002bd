import Monkey.Diagnostic.Report
import Monkey.Reading
import Monkey.Syntax.Text

/-!
# The command line

What the program answers for a text, once its options are known: the tokens of the text, or its
program and a report of each fault. Reports are written one by one, and the program breaks off at
a fault that there is no report of.
-/

namespace Monkey.CommandLine

/-- What the program is to do with a text. -/
structure Options where
  /-- The file to read; without one, the standard input. -/
  path : Option String
  /-- Whether to list the tokens, and not the program. -/
  tokens : Bool
  /-- Whether to skip to the end of a statement after a fault. -/
  synchronize : Bool
deriving DecidableEq

/-- What the program writes, and the code that it ends with. What the run-time system says of a
program that breaks off is left out. -/
structure Outcome where
  code : Nat
  output : String
  errors : String
deriving DecidableEq

/-- The code of a program that breaks off. -/
def brokenCode : Nat := 101

/-- Writes a report of each fault behind what has been written. At a fault that there is no report
of the program breaks off, and what has been written by then stays. -/
def writeReports (source file written : String) : List Diagnostic → Except String String
  | [] => .ok written
  | fault :: faults =>
    match fault.report? source file with
    | some report => writeReports source file (written ++ report) faults
    | none => .error written

namespace Options

variable (o : Options)

/-- The name under which reports speak of the text. -/
def file : String := o.path.getD "<stdin>"

def recovery : Recovery := if o.synchronize then .synchronize else .lenient

/-- The answer if there is no text to be had, for a reason that the system gives. -/
def unreadable (reason : String) : Outcome :=
  ⟨2, "", "Error: could not read " ++ o.file ++ ": " ++ reason ++ "\n"⟩

/-- The answer for a text: its tokens, or its program and a report of every fault. -/
def outcome (source : String) : Outcome :=
  if o.tokens then
    ⟨0, String.join ((tokenize source).map fun token => token.display ++ "\n"), ""⟩
  else
    let reading := read source o.recovery
    let output := reading.program.text ++ "\n"
    match reading.diagnostics with
    | [] => ⟨0, output, ""⟩
    | faults =>
      match writeReports source o.file "" faults with
      | .ok reports =>
        ⟨1, output, reports ++ toString faults.length ++ " error(s) in " ++ o.file ++ "\n"⟩
      | .error reports => ⟨brokenCode, output, reports⟩

end Options

end Monkey.CommandLine

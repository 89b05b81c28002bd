import Monkey.Descent.Progress
import Monkey.Source.Cursor
import Monkey.Syntax.Equality

/-!
# Reading texts

`read` takes a text to its program and the faults in it; with the rules of the language it always
has an answer. A `Session` holds a reader in the midst of a text, with a table of rules that may be
changed on the way.
-/

namespace Monkey

/-- What a text says: the program in it, and the faults that were noted, in their order. -/
structure Reading where
  program : Program
  diagnostics : List Diagnostic
deriving DecidableEq

/-- The program that a text is, read by the rules of the language. -/
def read (source : String) (recovery : Recovery) : Reading :=
  let start := Descent.State.start (Scanner.ofString source).drain
  let result := (Descent.unbounded .standard (Descent.program .standard recovery) start).get
    (Descent.program_reaches Table.standard_sparesEnd recovery).isSome
  ⟨result.1, result.2.diagnostics⟩

/-- A reader in the midst of a text, and the rules it goes by. -/
structure Session where
  table : Table
  recovery : Recovery
  state : Descent.State

namespace Session

/-- A session at a cursor, with the rules of the language. There is none inside a character. -/
def start? (c : Cursor) (recovery : Recovery) : Option Session :=
  c.scanner?.map fun s => ⟨.standard, recovery, .start s.drain⟩

/-- What a reader reads from here, and the session after it. There is no answer only if reading would
go on for ever. -/
def read? {α : Type} (s : Session) (reader : Descent.Nested → Descent.Parse α) :
    Option (α × Session) :=
  (Descent.unbounded s.table reader s.state).map fun (a, state) => (a, { s with state })

/-- The rest of the text as a program. -/
def program? (s : Session) : Option (Program × Session) :=
  s.read? (Descent.program s.table s.recovery)

end Session

end Monkey

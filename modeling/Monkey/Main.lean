import Monkey.Arguments

/-!
# The program

Reads the text that the arguments name, and writes the answer.
-/

namespace Monkey.CommandLine

/-- The bytes of a file, or of the standard input. -/
def Options.bytes (o : Options) : IO ByteArray := do
  match o.path with
  | some path => IO.FS.readBinFile path
  | none => (← IO.getStdin).readBinToEnd

/-- The text that the options name, or why there is none. -/
def Options.source (o : Options) : IO (Except String String) := do
  try
    match String.fromUTF8? (← o.bytes) with
    | some source => return .ok source
    | none => return .error "stream did not contain valid UTF-8"
  catch fault =>
    return .error (toString fault)

/-- Writes an answer and ends with its code. -/
def Outcome.write (outcome : Outcome) : IO UInt32 := do
  IO.print outcome.output
  IO.eprint outcome.errors
  return outcome.code.toUInt32

/-- Does what the arguments ask for. Only a text that is asked for is read. -/
def Request.serve (request : Request) : IO UInt32 := do
  let source ← match request with
    | .run options => options.source
    | _ => pure (.ok "")
  (request.outcome source).write

end Monkey.CommandLine

/-- The program: from its arguments to its exit code. -/
def main (arguments : List String) : IO UInt32 := (Monkey.CommandLine.request arguments).serve

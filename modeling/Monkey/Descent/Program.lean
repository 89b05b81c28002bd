import Monkey.Descent.Rules

/-!
# Reading programs

A program is read statement by statement up to the end of the text. After a statement with a fault,
reading either goes on as if nothing had happened or skips to where a statement is likely to begin.
-/

namespace Monkey

/-- How reading goes on after a statement with a fault. -/
inductive Recovery where
  /-- With the next token, as after any statement. -/
  | lenient
  /-- Behind the next semicolon or closing brace, unless the statement ended on one. -/
  | synchronize
deriving DecidableEq, Inhabited

namespace Descent

/-- Whether a kind ends a statement. -/
def endsStatement (k : Kind) : Bool := k == .semicolon || k == .closeCurly

/-- Takes a token that is of no use. -/
def skip : Parse (Option Unit) := do
  let _ ← take
  return none

/-- Takes tokens up to one that ends a statement, and that one too. -/
def skipStatement : Parse Unit := do
  let _ ← collect (fun k => endsStatement k || k == .eof) skip
  let _ ← take

/-- Skips to where a statement is likely to begin, unless a statement has just ended. -/
def resynchronize : Parse Unit := do
  if (← get).last.any fun token => endsStatement token.kind then return else skipStatement

/-- What is skipped behind a statement, before which so many faults were noted. -/
def recover (recovery : Recovery) (before : Nat) : Parse Unit := do
  if recovery = .synchronize ∧ before < (← get).log.length then resynchronize else return

/-- A statement that stands in no other, and what is skipped behind it. -/
def topLevel (t : Table) (recovery : Recovery) (n : Nested) : Parse Stmt := do
  let before := (← get).log.length
  let statement ← statement t n
  recover recovery before
  return statement

/-- All statements up to the end of the text. -/
def program (t : Table) (recovery : Recovery) (n : Nested) : Parse Program := do
  let body ← collect (· == .eof) (some <$> topLevel t recovery n)
  return ⟨body, ⟨0, (← current).span.stop⟩⟩

end Descent

end Monkey

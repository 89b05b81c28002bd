import Monkey.Reading

/-!
# Operations on sessions

What can be done with a session, one thing at a time: take a token or note a fault, change the table
of rules, or read something by a rule, whether or not the table has that rule for the current token.
The rules are those of the language (`PrefixRule`, `InfixRule`, `StatementRule`): any of them may be
set for any kind of token and followed at any token, but no reader from outside can be.
`Session.perform?` does such things in a row, as far as each of them comes to an end.
-/

namespace Monkey

/-- Something that can be done with a session. -/
inductive Operation where
  /-- Takes the current token. -/
  | take
  /-- Takes the current token, which should be of some kind. -/
  | expect (kind : Kind)
  /-- Notes a fault at the current token. -/
  | note (cause : Cause)
  | noteAt (cause : Cause) (position : Nat)
  /-- Sets one of the rules for statements for a kind; there are no others to be set. -/
  | setStatement (kind : Kind) (rule : StatementRule)
  /-- Sets one of the rules for the start of an expression. -/
  | setPrefix (kind : Kind) (rule : PrefixRule)
  /-- Sets one of the rules for what follows a first operand, and how tightly it holds that. -/
  | setInfix (kind : Kind) (power : Power) (rule : InfixRule)
  | program
  | statement
  /-- Reads a statement by one of the rules for statements. -/
  | statementBy (rule : StatementRule)
  | block
  | expression (power : Power)
  /-- Reads the start of an expression by one of the rules for it. -/
  | opening (rule : PrefixRule)
  /-- Reads what follows a first operand by one of the rules for it. -/
  | following (rule : InfixRule) (power : Power) (left : Expr)

namespace Session

/-- The session after something is read, unless reading would go on for ever. -/
def after? {α : Type} (s : Session) (reader : Descent.Nested → Descent.Parse α) : Option Session :=
  (s.read? reader).map (·.2)

/-- The token behind the current one. -/
def peek (s : Session) : Token := s.state.stream.tail.head

/-- The session after an operation, if that comes to an end. -/
def step? (s : Session) : Operation → Option Session
  | .take => s.after? fun _ => Descent.take
  | .expect kind => s.after? fun _ => Descent.expect kind
  | .note cause => s.after? fun _ => Descent.note cause s.state.current.span.start
  | .noteAt cause position => s.after? fun _ => Descent.note cause position
  | .setStatement kind rule => some { s with table := s.table.setStatement kind rule }
  | .setPrefix kind rule => some { s with table := s.table.setPrefix kind rule }
  | .setInfix kind power rule => some { s with table := s.table.setInfix kind power rule }
  | .program => s.program?.map (·.2)
  | .statement => s.after? (Descent.statement s.table)
  | .statementBy rule => s.after? fun n => Descent.statementBy s.table n rule
  | .block => s.after? Descent.block
  | .expression power => s.after? fun n => Descent.expression s.table n power
  | .opening rule => s.after? fun n => Descent.opening n rule
  | .following rule power left => s.after? fun n => Descent.following n left power rule

/-- The session after some operations in a row, if all of them come to an end. -/
def perform? (s : Session) : List Operation → Option Session
  | [] => some s
  | op :: ops => (s.step? op).bind (·.perform? ops)

end Session

end Monkey

import Monkey.Descent.State
import Monkey.Grammar.Table
import Monkey.Syntax.Basic
import Monkey.Token.Lexeme

/-!
# Rules of the grammar

Each rule of the grammar as a reader. A rule meets whole expressions and statements inside the one it
reads; the readers for those are given to it (`Nested`), so no rule refers to itself.

An expression begins as the table says of its first token (`opening`), and is then extended to the
right as long as the current token holds its operand tighter than the operator before (`extend`).
-/

namespace Monkey.Descent

/-- The readers for what stands inside the construct that is being read. -/
structure Nested where
  expression : Power → Parse Expr
  statement : Parse Stmt

/-- A number, a truth value or else a name. A number that is too large counts as zero. -/
def literal : Parse Expr := do
  let token ← take
  match token.kind with
  | .integer =>
    match Lexeme.number? token.text with
    | some n => return .number token n token.span
    | none =>
      note (.overflow token) token.span.start
      return .number token 0 token.span
  | .trueWord => return .boolean token true token.span
  | .falseWord => return .boolean token false token.span
  | _ => return .symbol (.ofToken token)

/-- Whether a kind ends a list between parentheses. -/
def endsList (k : Kind) : Bool := k == .closeParen || k == .eof

/-- Whether a kind ends the statements between braces. -/
def endsBlock (k : Kind) : Bool := k == .closeCurly || k == .eof

section

variable (n : Nested)

/-- An operator and its operand. -/
def unary : Parse Expr := do
  let operator ← take
  let operand ← n.expression .unary
  return .unary operator operand (← spanFrom operator.span.start)

/-- An expression between parentheses, which leave no trace. -/
def group : Parse Expr := do
  let _ ← expect .openParen
  let e ← n.expression .lowest
  let _ ← expect .closeParen
  return e

/-- Statements between braces. -/
def block : Parse Block := do
  let token ← expect .openCurly
  let body ← collect endsBlock (some <$> n.statement)
  let _ ← expect .closeCurly
  return ⟨token, body, ← spanFrom token.span.start⟩

/-- The block for when a condition fails, if there is one. -/
def alternative : Parse (Option Block) := do
  if ← takeIf .elseWord then some <$> block n else return none

/-- A condition between parentheses, a block, and another one if there is an alternative. -/
def conditional : Parse Expr := do
  let token ← take
  let condition ← group n
  let consequence ← block n
  let alternative ← alternative n
  return .conditional token condition consequence alternative (← spanFrom token.span.start)

/-- A parameter, and a comma behind it if there is one. What is no name is no parameter. -/
def parameter : Parse (Option Symbol) := do
  let token ← expect .identifier
  let _ ← takeIf .comma
  return if token.kind = .identifier then some (.ofToken token) else none

/-- Parameters between parentheses and a block. -/
def function : Parse Expr := do
  let token ← take
  let _ ← expect .openParen
  let parameters ← collect endsList parameter
  let _ ← expect .closeParen
  let body ← block n
  return .function token parameters body (← spanFrom token.span.start)

/-- An argument, or a comma, which is none. -/
def argument : Parse (Option Expr) := do
  if ← takeIf .comma then return none
  else
    let e ← n.expression .lowest
    return if e.isAbsent then none else some e

/-- Where a node starts that has its first operand before its token. -/
def startOf (first : Expr) (token : Token) : Nat := (first.span?.getD token.span).start

/-- Arguments between parentheses. -/
def call (callee : Expr) : Parse Expr := do
  let token ← take
  let arguments ← collect endsList (argument n)
  let _ ← expect .closeParen
  return .call callee token arguments (← spanFrom (startOf callee token))

/-- An operator and its second operand, which reaches as far as the operator's power allows. -/
def binary (power : Power) (left : Expr) : Parse Expr := do
  let operator ← take
  let right ← n.expression power
  return .binary left operator right (← spanFrom (startOf left operator))

/-- The start of an expression, by the rule of its first token. -/
def opening : PrefixRule → Parse Expr
  | .literal => literal
  | .unary => unary n
  | .group => group n
  | .conditional => conditional n
  | .function => function n

/-- An expression and what follows it, by the rule of the token behind it. -/
def following (left : Expr) (power : Power) : InfixRule → Parse Expr
  | .binary => binary n power left
  | .call => call n left

end

section

variable (t : Table) (n : Nested)

/-- An expression extended to the right, as long as the current token holds it tighter than the
operator before it. -/
def extend (power : Power) (left : Expr) : Parse Expr := fun s =>
  match t.infixAbove power s.kind with
  | none => some (left, s)
  | some (own, rule) =>
    match following n left own rule s with
    | none => none
    | some (e, s') => if _h : s'.left < s.left then extend power e s' else none
termination_by s => s.left

/-- An expression, up to a token that does not hold it tighter than the operator before it. Where no
expression can begin, one token is taken all the same and a hole is left. -/
def expression (power : Power) : Parse Expr := do
  match t.prefixRule (← current).kind with
  | some rule => extend t n power (← opening n rule)
  | none =>
    let token ← take
    note (.noOperand token) token.span.start
    return .absent

/-- A name and its value. -/
def binding : Parse Stmt := do
  let token ← take
  let name ← expect .identifier
  let _ ← expect .assign
  let value ← expression t n .lowest
  let _ ← expect .semicolon
  return .binding token (.ofToken name) value (← spanFrom token.span.start)

/-- The value to return, or none where a semicolon stands instead. -/
def returned : Parse Expr := do
  if (← current).kind = .semicolon then return .absent else expression t n .lowest

/-- The value to return from a function. -/
def returning : Parse Stmt := do
  let token ← take
  let value ← returned t n
  let _ ← expect .semicolon
  return .returning token value (← spanFrom token.span.start)

/-- An expression by itself, and a semicolon behind it if there is one. -/
def bare : Parse Stmt := do
  let token ← current
  let value ← expression t n .lowest
  let _ ← takeIf .semicolon
  return .expression token value (← spanFrom token.span.start)

/-- A statement by a rule. -/
def statementBy : StatementRule → Parse Stmt
  | .binding => binding t n
  | .returning => returning t n
  | .block => .block <$> block n
  | .expression => bare t n

/-- A statement, by the rule of its first token; an expression if there is none. -/
def statement : Parse Stmt := do
  statementBy t n ((t.statementRule (← current).kind).getD .expression)

end

/-- The readers for what is nested less deep than a bound; at the bound itself there is no answer. -/
def nested (t : Table) : Nat → Nested
  | 0 => ⟨fun _ => failure, failure⟩
  | depth + 1 =>
    let inner := nested t depth
    ⟨expression t inner, statement t inner⟩

/-- A reader that may nest deeper than there are tokens to come. It never needs to: a construct takes
a token before it meets another one inside, unless the end of the text stands in its place. -/
def unbounded {α : Type} (t : Table) (read : Nested → Parse α) : Parse α := fun s =>
  read (nested t (s.left + 1)) s

end Monkey.Descent

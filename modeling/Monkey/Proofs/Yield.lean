import Monkey.Syntax.Basic

/-!
# The tokens of a tree

The tokens that the nodes of a tree hold, in the order of the text: an operator stands between its
operands, and the parenthesis of a call between the callee and the arguments. The token that an
expression statement keeps is left out, since a node below holds it too. In a tree that was read
with faults a node may even hold the end of the text; the tokens of a program leave that out.
-/

namespace Monkey

mutual

/-- The tokens of an expression. -/
def Expr.tokens : Expr → List Token
  | .absent => []
  | .symbol s => [s.token]
  | .number t _ _ => [t]
  | .boolean t _ _ => [t]
  | .unary op e _ => op :: e.tokens
  | .binary l op r _ => l.tokens ++ op :: r.tokens
  | .conditional t c b none _ => t :: (c.tokens ++ b.tokens)
  | .conditional t c b (some a) _ => t :: (c.tokens ++ (b.tokens ++ a.tokens))
  | .function t ps b _ => t :: (ps.map (·.token) ++ b.tokens)
  | .call f t as _ => f.tokens ++ t :: Expr.tokensAll as
termination_by structural e => e

/-- The tokens of some expressions. -/
def Expr.tokensAll : List Expr → List Token
  | [] => []
  | e :: es => e.tokens ++ Expr.tokensAll es
termination_by structural es => es

/-- The tokens of a statement. -/
def Stmt.tokens : Stmt → List Token
  | .binding t n v _ => t :: n.token :: v.tokens
  | .returning t v _ => t :: v.tokens
  | .expression _ v _ => v.tokens
  | .block b => b.tokens
termination_by structural s => s

/-- The tokens of some statements. -/
def Stmt.tokensAll : List Stmt → List Token
  | [] => []
  | s :: ss => s.tokens ++ Stmt.tokensAll ss
termination_by structural ss => ss

/-- The tokens of a block: the brace that opens it, then those of its statements. -/
def Block.tokens : Block → List Token
  | ⟨t, body, _⟩ => t :: Stmt.tokensAll body
termination_by structural b => b

end

/-- The tokens of a program, the end of the text left out. -/
def Program.tokens (p : Program) : List Token :=
  (Stmt.tokensAll p.body).filter fun t => t.kind ≠ .eof

end Monkey

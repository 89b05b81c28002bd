import Monkey.Syntax.Basic

/-!
# The text of trees

A tree written back as text. Every unary and binary expression stands in parentheses, so the text
shows how the tree is grouped; braces and holes leave no trace, and a conditional begins with `if`
whatever its token says.
-/

namespace Monkey

/-- Texts with a comma and a space between any two. -/
def commaSeparated : List String → String
  | [] => ""
  | [s] => s
  | s :: t :: rest => s ++ ", " ++ commaSeparated (t :: rest)

mutual

/-- The text of an expression. -/
def Expr.text : Expr → String
  | .absent => ""
  | .symbol s => s.name
  | .number token _ _ => token.text
  | .boolean token _ _ => token.text
  | .unary operator operand _ => "(" ++ operator.text ++ operand.text ++ ")"
  | .binary left operator right _ =>
    "(" ++ left.text ++ " " ++ operator.text ++ " " ++ right.text ++ ")"
  | .conditional _ condition consequence none _ =>
    "if" ++ condition.text ++ " " ++ consequence.text
  | .conditional _ condition consequence (some alternative) _ =>
    "if" ++ condition.text ++ " " ++ consequence.text ++ " else " ++ alternative.text
  | .function token parameters body _ =>
    token.text ++ "(" ++ commaSeparated (parameters.map (·.name)) ++ ") " ++ body.text
  | .call callee _ arguments _ =>
    callee.text ++ "(" ++ commaSeparated (Expr.texts arguments) ++ ")"
termination_by structural e => e

/-- The texts of some expressions. -/
def Expr.texts : List Expr → List String
  | [] => []
  | e :: es => e.text :: Expr.texts es
termination_by structural es => es

/-- The text of a statement. -/
def Stmt.text : Stmt → String
  | .binding token name value _ => token.text ++ " " ++ name.name ++ " = " ++ value.text ++ ";"
  | .returning token value _ => token.text ++ " " ++ value.text ++ ";"
  | .expression _ value _ => value.text
  | .block b => b.text
termination_by structural s => s

/-- The text of some statements, one directly behind the other. -/
def Stmt.textAll : List Stmt → String
  | [] => ""
  | s :: ss => s.text ++ Stmt.textAll ss
termination_by structural ss => ss

/-- The text of a block: that of its statements. -/
def Block.text : Block → String
  | ⟨_, body, _⟩ => Stmt.textAll body
termination_by structural b => b

end

/-- The text of a program. -/
def Program.text (p : Program) : String := Stmt.textAll p.body

end Monkey

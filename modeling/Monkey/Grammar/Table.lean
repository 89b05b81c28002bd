import Monkey.Grammar.Power
import Monkey.Token.Kind

/-!
# Tables of rules

A table says which rule of the grammar a kind of token calls for: at the start of a statement, at the
start of an expression, and behind an operand. The reading of a text is steered by the table alone,
so a table may be changed at will; `Table.standard` is that of the language.
-/

namespace Monkey

/-- How an expression goes on that begins with a token. -/
inductive PrefixRule where
  /-- A number, a truth value or a name, and nothing more. -/
  | literal
  /-- An operator in front of its operand. -/
  | unary
  /-- An expression between parentheses. -/
  | group
  | conditional
  | function
deriving DecidableEq

/-- How an expression goes on whose first operand stands before a token. -/
inductive InfixRule where
  /-- An operator between two operands. -/
  | binary
  /-- Arguments between parentheses. -/
  | call
deriving DecidableEq

/-- How a statement goes on that begins with a token. -/
inductive StatementRule where
  | binding
  | returning
  | block
  | expression
deriving DecidableEq

/-- The rules that the kinds of token call for. -/
structure Table where
  statementRule : Kind → Option StatementRule
  prefixRule : Kind → Option PrefixRule
  infixRule : Kind → Option (Power × InfixRule)

namespace Table

/-- The table of the language. -/
def standard : Table where
  statementRule
    | .letWord => some .binding
    | .returnWord => some .returning
    | .openCurly => some .block
    | _ => none
  prefixRule
    | .integer | .identifier | .trueWord | .falseWord => some .literal
    | .dash | .bang => some .unary
    | .openParen => some .group
    | .ifWord => some .conditional
    | .fnWord => some .function
    | _ => none
  infixRule
    | .equals | .notEquals => some (.equality, .binary)
    | .less | .greater => some (.relational, .binary)
    | .plus | .dash => some (.additive, .binary)
    | .star | .slash => some (.multiplicative, .binary)
    | .openParen => some (.call, .call)
    | _ => none

variable (t : Table)

/-- Whether the end of the text calls for no rule inside an expression. -/
def SparesEnd : Prop := t.prefixRule .eof = none ∧ t.infixRule .eof = none

theorem standard_sparesEnd : standard.SparesEnd := ⟨rfl, rfl⟩

/-- The table in which a kind calls for a rule at the start of a statement. -/
def setStatement (k : Kind) (rule : StatementRule) : Table :=
  { t with statementRule := fun l => if l = k then some rule else t.statementRule l }

/-- The table in which a kind calls for a rule at the start of an expression. -/
def setPrefix (k : Kind) (rule : PrefixRule) : Table :=
  { t with prefixRule := fun l => if l = k then some rule else t.prefixRule l }

/-- The table in which a kind calls for a rule behind an operand, and holds it with a power. -/
def setInfix (k : Kind) (power : Power) (rule : InfixRule) : Table :=
  { t with infixRule := fun l => if l = k then some (power, rule) else t.infixRule l }

/-- The rules of one table, and those of another where the first has none. -/
def orElse (u : Table) : Table where
  statementRule k := t.statementRule k <|> u.statementRule k
  prefixRule k := t.prefixRule k <|> u.prefixRule k
  infixRule k := t.infixRule k <|> u.infixRule k

/-- The power with which a kind holds the operand before it. -/
def power (k : Kind) : Power := ((t.infixRule k).map (·.1)).getD .lowest

/-- The rule by which a kind takes the operand before it from an operator of some power. Only a
tighter hold does, and a semicolon never. -/
def infixAbove (power : Power) (k : Kind) : Option (Power × InfixRule) :=
  if k = .semicolon then none else (t.infixRule k).filter fun (p, _) => power < p

end Table

end Monkey

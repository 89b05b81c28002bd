import Monkey.Token.Basic

/-!
# Syntax trees

The trees of the language: expressions, statements and blocks. Each node keeps the token that it was
read from and its span. A tree may have holes, since reading goes on after a fault: where an
expression should stand and none could be read, stands `Expr.absent`.
-/

namespace Monkey

/-- A name, as it stands at a place in a text. -/
structure Symbol where
  token : Token
  name : String
  span : Span
deriving DecidableEq, Inhabited

/-- The name that a token spells. -/
def Symbol.ofToken (t : Token) : Symbol := ⟨t, t.text, t.span⟩

mutual

/-- What has a value. -/
inductive Expr where
  /-- The hole where no expression stands. -/
  | absent
  | symbol (symbol : Symbol)
  | number (token : Token) (value : Int) (span : Span)
  | boolean (token : Token) (value : Bool) (span : Span)
  | unary (operator : Token) (operand : Expr) (span : Span)
  | binary (left : Expr) (operator : Token) (right : Expr) (span : Span)
  | conditional (token : Token) (condition : Expr) (consequence : Block)
      (alternative : Option Block) (span : Span)
  | function (token : Token) (parameters : List Symbol) (body : Block) (span : Span)
  /-- The token is the parenthesis before the arguments. -/
  | call (callee : Expr) (token : Token) (arguments : List Expr) (span : Span)

/-- What stands in a block. -/
inductive Stmt where
  | binding (token : Token) (name : Symbol) (value : Expr) (span : Span)
  | returning (token : Token) (value : Expr) (span : Span)
  /-- The token is the first one of the expression. -/
  | expression (token : Token) (value : Expr) (span : Span)
  | block (block : Block)

/-- Statements between braces; the token is the opening one. -/
structure Block where
  token : Token
  body : List Stmt
  span : Span

end

instance : Inhabited Expr := ⟨.absent⟩
instance : Inhabited Block := ⟨⟨default, [], default⟩⟩
instance : Inhabited Stmt := ⟨.block default⟩

/-- The statements of a whole text. -/
structure Program where
  body : List Stmt
  span : Span
deriving Inhabited

namespace Expr

/-- Whether an expression is a hole. -/
def isAbsent : Expr → Bool
  | absent => true
  | _ => false

/-- The token of a node; a hole has none. -/
def token? : Expr → Option Token
  | absent => none
  | symbol s => some s.token
  | number token _ _ => some token
  | boolean token _ _ => some token
  | unary operator _ _ => some operator
  | binary _ operator _ _ => some operator
  | conditional token _ _ _ _ => some token
  | function token _ _ _ => some token
  | call _ token _ _ => some token

/-- The span of a node; a hole has none. -/
def span? : Expr → Option Span
  | absent => none
  | symbol s => some s.span
  | number _ _ span => some span
  | boolean _ _ span => some span
  | unary _ _ span => some span
  | binary _ _ _ span => some span
  | conditional _ _ _ _ span => some span
  | function _ _ _ span => some span
  | call _ _ _ span => some span

end Expr

namespace Stmt

/-- The token that begins a statement. -/
def token : Stmt → Token
  | binding token _ _ _ => token
  | returning token _ _ => token
  | expression token _ _ => token
  | block b => b.token

def span : Stmt → Span
  | binding _ _ _ span => span
  | returning _ _ span => span
  | expression _ _ span => span
  | block b => b.span

end Stmt

/-- The text of the token that begins a program, if any. -/
def Program.literal (p : Program) : String := (p.body.head?.map (·.token.text)).getD ""

end Monkey

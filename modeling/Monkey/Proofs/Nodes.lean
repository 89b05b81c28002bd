import Monkey.Syntax.Basic

/-!
# The nodes of a tree

All nodes of a tree in one list, each node before those below it and these in the order of the text.
What holds of a whole program is said node by node.
-/

namespace Monkey

/-- A node of a tree. -/
inductive Node where
  | expr (e : Expr)
  | stmt (s : Stmt)
  | block (b : Block)

mutual

/-- The nodes of an expression; a hole has none. -/
def Expr.nodes : Expr → List Node
  | .absent => []
  | .symbol s => [.expr (.symbol s)]
  | .number t v p => [.expr (.number t v p)]
  | .boolean t v p => [.expr (.boolean t v p)]
  | .unary op e p => .expr (.unary op e p) :: e.nodes
  | .binary l op r p => .expr (.binary l op r p) :: (l.nodes ++ r.nodes)
  | .conditional t c b none p => .expr (.conditional t c b none p) :: (c.nodes ++ b.nodes)
  | .conditional t c b (some a) p =>
    .expr (.conditional t c b (some a) p) :: (c.nodes ++ b.nodes ++ a.nodes)
  | .function t ps b p => .expr (.function t ps b p) :: b.nodes
  | .call f t as p => .expr (.call f t as p) :: (f.nodes ++ Expr.nodesAll as)
termination_by structural e => e

/-- The nodes of some expressions. -/
def Expr.nodesAll : List Expr → List Node
  | [] => []
  | e :: es => e.nodes ++ Expr.nodesAll es
termination_by structural es => es

/-- The nodes of a statement. -/
def Stmt.nodes : Stmt → List Node
  | .binding t n v p => .stmt (.binding t n v p) :: v.nodes
  | .returning t v p => .stmt (.returning t v p) :: v.nodes
  | .expression t v p => .stmt (.expression t v p) :: v.nodes
  | .block b => .stmt (.block b) :: b.nodes
termination_by structural s => s

/-- The nodes of some statements. -/
def Stmt.nodesAll : List Stmt → List Node
  | [] => []
  | s :: ss => s.nodes ++ Stmt.nodesAll ss
termination_by structural ss => ss

/-- The nodes of a block. -/
def Block.nodes : Block → List Node
  | ⟨t, body, p⟩ => .block ⟨t, body, p⟩ :: Stmt.nodesAll body
termination_by structural b => b

end

theorem Expr.nodes_conditional (t : Token) (c : Expr) (b : Block) (a : Option Block) (p : Span) :
    (Expr.conditional t c b a p).nodes =
      .expr (.conditional t c b a p) :: (c.nodes ++ b.nodes ++ a.elim [] Block.nodes) := by
  cases a with
  | none => simp [Expr.nodes]
  | some a => simp [Expr.nodes]

/-- The nodes of a program. -/
def Program.nodes (p : Program) : List Node := Stmt.nodesAll p.body

/-- The expressions among what a node is and what it names: the parameters of a function and the name
of a binding are expressions too, but no nodes of their own. -/
def Node.expressions : Node → List Expr
  | .expr (.function t ps b p) => .function t ps b p :: ps.map .symbol
  | .expr e => [e]
  | .stmt (.binding _ n _ _) => [.symbol n]
  | _ => []

/-- The expressions of a program. -/
def Program.expressions (p : Program) : List Expr := p.nodes.flatMap Node.expressions

/-- A node that has all its parts: an expression stands in every slot but that of a value to return,
names and parameters are identifiers, and a block begins with its brace. -/
def Node.Whole : Node → Prop
  | .expr (.unary _ e _) => e.isAbsent = false
  | .expr (.binary l _ r _) => l.isAbsent = false ∧ r.isAbsent = false
  | .expr (.conditional _ c _ _ _) => c.isAbsent = false
  | .expr (.function _ ps _ _) => ∀ p ∈ ps, p.token.kind = .identifier
  | .expr (.call f _ as _) => f.isAbsent = false ∧ ∀ a ∈ as, a.isAbsent = false
  | .expr _ => True
  | .stmt (.binding _ n v _) => n.token.kind = .identifier ∧ v.isAbsent = false
  | .stmt (.expression _ v _) => v.isAbsent = false
  | .stmt _ => True
  | .block b => b.token.kind = .openCurly

end Monkey

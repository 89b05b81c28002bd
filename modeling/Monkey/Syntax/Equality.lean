import Monkey.Syntax.Basic

/-!
# Equality of trees

Two trees are equal if they have the same shape and agree in every token, name, value and span. The
comparison `same` walks both trees together; it holds exactly of equal trees (`same_iff`), which
makes equality of trees decidable.
-/

namespace Monkey

mutual

/-- Whether two expressions agree in every part. -/
def Expr.same : Expr → Expr → Bool
  | .absent, .absent => true
  | .symbol s, .symbol s' => s == s'
  | .number t v p, .number t' v' p' => t == t' && v == v' && p == p'
  | .boolean t v p, .boolean t' v' p' => t == t' && v == v' && p == p'
  | .unary t v p, .unary t' v' p' => t == t' && v.same v' && p == p'
  | .binary l t r p, .binary l' t' r' p' => l.same l' && t == t' && r.same r' && p == p'
  | .conditional t c b none p, .conditional t' c' b' none p' =>
    t == t' && c.same c' && b.same b' && p == p'
  | .conditional t c b (some a) p, .conditional t' c' b' (some a') p' =>
    t == t' && c.same c' && b.same b' && a.same a' && p == p'
  | .function t ps b p, .function t' ps' b' p' => t == t' && ps == ps' && b.same b' && p == p'
  | .call f t as p, .call f' t' as' p' => f.same f' && t == t' && Expr.sameAll as as' && p == p'
  | _, _ => false
termination_by structural e => e

/-- Whether two lists of expressions agree in every part. -/
def Expr.sameAll : List Expr → List Expr → Bool
  | [], [] => true
  | a :: as, b :: bs => a.same b && Expr.sameAll as bs
  | _, _ => false
termination_by structural es => es

/-- Whether two statements agree in every part. -/
def Stmt.same : Stmt → Stmt → Bool
  | .binding t s v p, .binding t' s' v' p' => t == t' && s == s' && v.same v' && p == p'
  | .returning t v p, .returning t' v' p' => t == t' && v.same v' && p == p'
  | .expression t v p, .expression t' v' p' => t == t' && v.same v' && p == p'
  | .block b, .block b' => b.same b'
  | _, _ => false
termination_by structural s => s

/-- Whether two lists of statements agree in every part. -/
def Stmt.sameAll : List Stmt → List Stmt → Bool
  | [], [] => true
  | a :: as, b :: bs => a.same b && Stmt.sameAll as bs
  | _, _ => false
termination_by structural ss => ss

/-- Whether two blocks agree in every part. -/
def Block.same : Block → Block → Bool
  | ⟨t, b, p⟩, ⟨t', b', p'⟩ => t == t' && Stmt.sameAll b b' && p == p'
termination_by structural b => b

end

mutual

theorem Expr.same_iff : ∀ a b : Expr, a.same b = true ↔ a = b
  | .absent, b => by cases b <;> simp [Expr.same]
  | .symbol s, b => by cases b <;> simp [Expr.same]
  | .number .., b => by cases b <;> simp [Expr.same, and_assoc]
  | .boolean .., b => by cases b <;> simp [Expr.same, and_assoc]
  | .unary t v p, b => by cases b <;> simp [Expr.same, and_assoc, v.same_iff]
  | .binary l t r p, b => by cases b <;> simp [Expr.same, and_assoc, l.same_iff, r.same_iff]
  | .conditional t c b none p, e => by
    cases e with
    | conditional t' c' b' a' p' =>
      cases a' <;> simp [Expr.same, and_assoc, c.same_iff, b.same_iff]
    | _ => simp [Expr.same]
  | .conditional t c b (some a) p, e => by
    cases e with
    | conditional t' c' b' a' p' =>
      cases a' <;> simp [Expr.same, and_assoc, c.same_iff, b.same_iff, a.same_iff]
    | _ => simp [Expr.same]
  | .function t ps b p, e => by cases e <;> simp [Expr.same, and_assoc, b.same_iff]
  | .call f t as p, e => by
    cases e <;> simp [Expr.same, and_assoc, f.same_iff, Expr.sameAll_iff as]

theorem Expr.sameAll_iff : ∀ a b : List Expr, Expr.sameAll a b = true ↔ a = b
  | [], b => by cases b <;> simp [Expr.sameAll]
  | a :: as, b => by cases b <;> simp [Expr.sameAll, a.same_iff, Expr.sameAll_iff as]

theorem Stmt.same_iff : ∀ a b : Stmt, a.same b = true ↔ a = b
  | .binding t s v p, b => by cases b <;> simp [Stmt.same, and_assoc, v.same_iff]
  | .returning t v p, b => by cases b <;> simp [Stmt.same, and_assoc, v.same_iff]
  | .expression t v p, b => by cases b <;> simp [Stmt.same, and_assoc, v.same_iff]
  | .block c, b => by cases b <;> simp [Stmt.same, c.same_iff]

theorem Stmt.sameAll_iff : ∀ a b : List Stmt, Stmt.sameAll a b = true ↔ a = b
  | [], b => by cases b <;> simp [Stmt.sameAll]
  | a :: as, b => by cases b <;> simp [Stmt.sameAll, a.same_iff, Stmt.sameAll_iff as]

theorem Block.same_iff : ∀ a b : Block, a.same b = true ↔ a = b
  | ⟨t, b, p⟩, ⟨t', b', p'⟩ => by simp [Block.same, and_assoc, Stmt.sameAll_iff b]

end

instance : DecidableEq Expr := fun a b => decidable_of_iff _ (Expr.same_iff a b)
instance : DecidableEq Stmt := fun a b => decidable_of_iff _ (Stmt.same_iff a b)
instance : DecidableEq Block := fun a b => decidable_of_iff _ (Block.same_iff a b)

deriving instance DecidableEq for Program

end Monkey

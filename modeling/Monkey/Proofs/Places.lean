import Monkey.Syntax.Text

/-!
# Trees and places

A tree with all its spans changed in the same way (`mapSpan`). The text of a tree does not depend on
the places where its parts were read (`Program.text_mapSpan`).
-/

namespace Monkey

/-- A span that says nothing. -/
def Span.erase (_ : Span) : Span := ⟨0, 0⟩

/-- A token with its span changed. -/
def Token.mapSpan (f : Span → Span) (t : Token) : Token := { t with span := f t.span }

/-- A name with its spans changed. -/
def Symbol.mapSpan (f : Span → Span) (s : Symbol) : Symbol :=
  ⟨s.token.mapSpan f, s.name, f s.span⟩

mutual

/-- An expression with all its spans changed. -/
def Expr.mapSpan (f : Span → Span) : Expr → Expr
  | .absent => .absent
  | .symbol s => .symbol (s.mapSpan f)
  | .number t v p => .number (t.mapSpan f) v (f p)
  | .boolean t v p => .boolean (t.mapSpan f) v (f p)
  | .unary op e p => .unary (op.mapSpan f) (e.mapSpan f) (f p)
  | .binary l op r p => .binary (l.mapSpan f) (op.mapSpan f) (r.mapSpan f) (f p)
  | .conditional t c b none p =>
    .conditional (t.mapSpan f) (c.mapSpan f) (b.mapSpan f) none (f p)
  | .conditional t c b (some a) p =>
    .conditional (t.mapSpan f) (c.mapSpan f) (b.mapSpan f) (some (a.mapSpan f)) (f p)
  | .function t ps b p =>
    .function (t.mapSpan f) (ps.map (Symbol.mapSpan f)) (b.mapSpan f) (f p)
  | .call e t as p => .call (e.mapSpan f) (t.mapSpan f) (Expr.mapSpanAll f as) (f p)
termination_by structural e => e

/-- Some expressions with all their spans changed. -/
def Expr.mapSpanAll (f : Span → Span) : List Expr → List Expr
  | [] => []
  | e :: es => e.mapSpan f :: Expr.mapSpanAll f es
termination_by structural es => es

/-- A statement with all its spans changed. -/
def Stmt.mapSpan (f : Span → Span) : Stmt → Stmt
  | .binding t n v p => .binding (t.mapSpan f) (n.mapSpan f) (v.mapSpan f) (f p)
  | .returning t v p => .returning (t.mapSpan f) (v.mapSpan f) (f p)
  | .expression t v p => .expression (t.mapSpan f) (v.mapSpan f) (f p)
  | .block b => .block (b.mapSpan f)
termination_by structural s => s

/-- Some statements with all their spans changed. -/
def Stmt.mapSpanAll (f : Span → Span) : List Stmt → List Stmt
  | [] => []
  | s :: ss => s.mapSpan f :: Stmt.mapSpanAll f ss
termination_by structural ss => ss

/-- A block with all its spans changed. -/
def Block.mapSpan (f : Span → Span) : Block → Block
  | ⟨t, body, p⟩ => ⟨t.mapSpan f, Stmt.mapSpanAll f body, f p⟩
termination_by structural b => b

end

/-- A program with all its spans changed. -/
def Program.mapSpan (f : Span → Span) (p : Program) : Program :=
  ⟨Stmt.mapSpanAll f p.body, f p.span⟩

mutual

theorem Expr.text_mapSpan (f : Span → Span) : ∀ e : Expr, (e.mapSpan f).text = e.text
  | .absent => rfl
  | .symbol _ => rfl
  | .number .. => rfl
  | .boolean .. => rfl
  | .unary _ e _ => by rw [Expr.mapSpan, Expr.text, Expr.text, e.text_mapSpan f]; rfl
  | .binary l _ r _ => by
    rw [Expr.mapSpan, Expr.text, Expr.text, l.text_mapSpan f, r.text_mapSpan f]; rfl
  | .conditional _ c b none _ => by
    rw [Expr.mapSpan, Expr.text, Expr.text, c.text_mapSpan f, b.text_mapSpan f]
  | .conditional _ c b (some a) _ => by
    rw [Expr.mapSpan, Expr.text, Expr.text, c.text_mapSpan f, b.text_mapSpan f, a.text_mapSpan f]
  | .function _ ps b _ => by
    rw [Expr.mapSpan, Expr.text, Expr.text, b.text_mapSpan f, List.map_map]; rfl
  | .call e _ as _ => by
    rw [Expr.mapSpan, Expr.text, Expr.text, e.text_mapSpan f, Expr.texts_mapSpanAll f as]
termination_by structural e => e

theorem Expr.texts_mapSpanAll (f : Span → Span) :
    ∀ es : List Expr, Expr.texts (Expr.mapSpanAll f es) = Expr.texts es
  | [] => rfl
  | e :: es => by
    rw [Expr.mapSpanAll, Expr.texts, Expr.texts, e.text_mapSpan f, Expr.texts_mapSpanAll f es]
termination_by structural es => es

theorem Stmt.text_mapSpan (f : Span → Span) : ∀ s : Stmt, (s.mapSpan f).text = s.text
  | .binding _ _ v _ => by rw [Stmt.mapSpan, Stmt.text, Stmt.text, v.text_mapSpan f]; rfl
  | .returning _ v _ => by rw [Stmt.mapSpan, Stmt.text, Stmt.text, v.text_mapSpan f]; rfl
  | .expression _ v _ => by rw [Stmt.mapSpan, Stmt.text, Stmt.text, v.text_mapSpan f]
  | .block b => by rw [Stmt.mapSpan, Stmt.text, Stmt.text, b.text_mapSpan f]
termination_by structural s => s

theorem Stmt.textAll_mapSpanAll (f : Span → Span) :
    ∀ ss : List Stmt, Stmt.textAll (Stmt.mapSpanAll f ss) = Stmt.textAll ss
  | [] => rfl
  | s :: ss => by
    rw [Stmt.mapSpanAll, Stmt.textAll, Stmt.textAll, s.text_mapSpan f, Stmt.textAll_mapSpanAll f ss]
termination_by structural ss => ss

theorem Block.text_mapSpan (f : Span → Span) : ∀ b : Block, (b.mapSpan f).text = b.text
  | ⟨_, body, _⟩ => by
    rw [Block.mapSpan, Block.text, Block.text, Stmt.textAll_mapSpanAll f body]
termination_by structural b => b

end

/-- **The text of a program does not depend on places.** -/
theorem Program.text_mapSpan (f : Span → Span) (p : Program) : (p.mapSpan f).text = p.text :=
  Stmt.textAll_mapSpanAll f p.body

end Monkey

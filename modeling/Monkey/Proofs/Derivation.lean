import Monkey.Grammar.Power
import Monkey.Syntax.Basic
import Monkey.Token.Lexeme

/-!
# The grammar

Which tokens make up which trees, told without a reader: `Derives form ts` says that by the grammar
of the language the tokens `ts` spell the form, a tree together with its nonterminal.

```
program     ::= statement*
statement   ::= let identifier = expression ; | return [expression] ; | block | expression [;]
block       ::= { statement* }
expression  ::= a chain of operators in five levels: == != below < > below + - below * / below calls,
                with the unary - ! between the last two
primary     ::= integer | identifier | true | false | ( expression )
              | if ( expression ) block [else block] | fn ( (identifier [,])* ) block
arguments   ::= (expression | ,)*
```

Chains group to the left. An expression that nothing ends, that is, one without a semicolon behind it
and an argument, reaches as far as it can: what follows must not go on with it (`Unextended`).
-/

namespace Monkey

/-- The level of the operators between two operands. -/
def Kind.operatorLevel? : Kind → Option Power
  | .equals | .notEquals => some .equality
  | .less | .greater => some .relational
  | .plus | .dash => some .additive
  | .star | .slash => some .multiplicative
  | _ => none

/-- Whether a token of some kind goes on with the expression before it: an operator between two
operands, or the parenthesis before arguments. -/
def Kind.continues (k : Kind) : Bool := k.operatorLevel?.isSome || k == .openParen

/-- What follows does not go on with an expression before it. -/
def Unextended (ts : List Token) : Prop := ∀ t ∈ ts.head?, t.kind.continues = false

theorem unextended_nil : Unextended [] := fun t ht => by cases ht

/-- The offset where the last of some tokens stops. -/
def stopOf (ts : List Token) : Nat := (ts.getLast?.map (·.span.stop)).getD 0

/-- The span from an offset to where the last of some tokens stops, but never backwards. -/
def Span.over (start : Nat) (ts : List Token) : Span := ⟨start, max (stopOf ts) start⟩

/-- The offset where the span of an expression starts. -/
def Expr.start (e : Expr) : Nat := (e.span?.getD default).start

/-- The number that a run of digits names. -/
def Token.decimal (t : Token) : Nat := Nat.ofDigitChars 10 t.text.toList 0

/-- A token is read as the number that its digits name, unless that is too large. -/
theorem Token.number?_text (t : Token) :
    Lexeme.number? t.text = if t.decimal ≤ Lexeme.numberLimit then some t.decimal else none := rfl

/-- A nonterminal of the grammar, together with a tree for it. -/
inductive Form where
  /-- An expression whose operators outside parentheses are of this level or tighter. -/
  | expression (level : Power) (e : Expr)
  | parameters (ps : List Symbol)
  | arguments (es : List Expr)
  | block (b : Block)
  /-- What may follow the first block of a conditional. -/
  | alternative (b : Option Block)
  /-- A statement that ends by itself: with a semicolon or a brace. -/
  | statement (s : Stmt)
  | statements (ss : List Stmt)

/-- **The grammar of the language**: the tokens spell the form. -/
inductive Derives : Form → List Token → Prop where
  | tighter {ts : List Token} {level own : Power} {e : Expr} (h : level < own)
      (he : Derives (.expression own e) ts) : Derives (.expression level e) ts
  /-- One more link of a chain: its last operand is of a tighter level. -/
  | binary {ts ls rs : List Token} {level own : Power} {op : Token} {l r : Expr}
      (ho : op.kind.operatorLevel? = some level) (h : level < own)
      (hl : Derives (.expression level l) ls) (hr : Derives (.expression own r) rs)
      (ht : ts = ls ++ op :: rs) :
      Derives (.expression level (.binary l op r (.over l.start ts))) ts
  | unary {ts es : List Token} {op : Token} {e : Expr} (ho : op.kind = .dash ∨ op.kind = .bang)
      (he : Derives (.expression .unary e) es) (ht : ts = op :: es) :
      Derives (.expression .unary (.unary op e (.over op.span.start ts))) ts
  | call {ts fs as : List Token} {o c : Token} {f : Expr} {es : List Expr}
      (ho : o.kind = .openParen) (hc : c.kind = .closeParen)
      (hf : Derives (.expression .call f) fs) (ha : Derives (.arguments es) as)
      (ht : ts = fs ++ o :: as ++ [c]) :
      Derives (.expression .call (.call f o es (.over f.start ts))) ts
  | integer {t : Token} (h : t.kind = .integer) (hn : t.decimal ≤ Lexeme.numberLimit) :
      Derives (.expression .call (.number t t.decimal t.span)) [t]
  | identifier {t : Token} (h : t.kind = .identifier) :
      Derives (.expression .call (.symbol (.ofToken t))) [t]
  | truth {t : Token} (h : t.kind = .trueWord) :
      Derives (.expression .call (.boolean t true t.span)) [t]
  | falsehood {t : Token} (h : t.kind = .falseWord) :
      Derives (.expression .call (.boolean t false t.span)) [t]
  | group {es : List Token} {o c : Token} {e : Expr} (ho : o.kind = .openParen)
      (hc : c.kind = .closeParen) (he : Derives (.expression .lowest e) es) :
      Derives (.expression .call e) (o :: es ++ [c])
  | conditional {ts cs bs as : List Token} {i o c : Token} {e : Expr} {b : Block}
      {a : Option Block} (hi : i.kind = .ifWord) (ho : o.kind = .openParen)
      (hc : c.kind = .closeParen) (he : Derives (.expression .lowest e) cs)
      (hb : Derives (.block b) bs) (ha : Derives (.alternative a) as)
      (ht : ts = i :: o :: cs ++ c :: (bs ++ as)) :
      Derives (.expression .call (.conditional i e b a (.over i.span.start ts))) ts
  | function {ts ps bs : List Token} {f o c : Token} {params : List Symbol} {b : Block}
      (hf : f.kind = .fnWord) (ho : o.kind = .openParen) (hc : c.kind = .closeParen)
      (hp : Derives (.parameters params) ps) (hb : Derives (.block b) bs)
      (ht : ts = f :: o :: ps ++ c :: bs) :
      Derives (.expression .call (.function f params b (.over f.span.start ts))) ts
  | parametersEnd : Derives (.parameters []) []
  | parameter {ts : List Token} {t : Token} {ps : List Symbol} (h : t.kind = .identifier)
      (hp : Derives (.parameters ps) ts) : Derives (.parameters (.ofToken t :: ps)) (t :: ts)
  | parameterComma {ts : List Token} {t c : Token} {ps : List Symbol} (h : t.kind = .identifier)
      (hc : c.kind = .comma) (hp : Derives (.parameters ps) ts) :
      Derives (.parameters (.ofToken t :: ps)) (t :: c :: ts)
  | argumentsEnd : Derives (.arguments []) []
  | comma {ts : List Token} {c : Token} {es : List Expr} (h : c.kind = .comma)
      (ha : Derives (.arguments es) ts) : Derives (.arguments es) (c :: ts)
  | argument {ts us : List Token} {e : Expr} {es : List Expr}
      (he : Derives (.expression .lowest e) ts) (ha : Derives (.arguments es) us)
      (hu : Unextended us) : Derives (.arguments (e :: es)) (ts ++ us)
  | block {ts us : List Token} {o c : Token} {ss : List Stmt} (ho : o.kind = .openCurly)
      (hc : c.kind = .closeCurly) (hs : Derives (.statements ss) us) (ht : ts = o :: us ++ [c]) :
      Derives (.block ⟨o, ss, .over o.span.start ts⟩) ts
  | noAlternative : Derives (.alternative none) []
  | alternative {ts : List Token} {t : Token} {b : Block} (h : t.kind = .elseWord)
      (hb : Derives (.block b) ts) : Derives (.alternative (some b)) (t :: ts)
  | binding {ts es : List Token} {l i a c : Token} {e : Expr} (hl : l.kind = .letWord)
      (hi : i.kind = .identifier) (ha : a.kind = .assign) (hc : c.kind = .semicolon)
      (he : Derives (.expression .lowest e) es) (ht : ts = l :: i :: a :: es ++ [c]) :
      Derives (.statement (.binding l (.ofToken i) e (.over l.span.start ts))) ts
  | returningNothing {ts : List Token} {r c : Token} (hr : r.kind = .returnWord)
      (hc : c.kind = .semicolon) (ht : ts = [r, c]) :
      Derives (.statement (.returning r .absent (.over r.span.start ts))) ts
  | returning {ts es : List Token} {r c : Token} {e : Expr} (hr : r.kind = .returnWord)
      (hc : c.kind = .semicolon) (he : Derives (.expression .lowest e) es)
      (ht : ts = r :: es ++ [c]) :
      Derives (.statement (.returning r e (.over r.span.start ts))) ts
  | blockStatement {ts : List Token} {b : Block} (hb : Derives (.block b) ts) :
      Derives (.statement (.block b)) ts
  /-- The statement keeps the first token of the expression. -/
  | ended {ts es : List Token} {t c : Token} {e : Expr} (hc : c.kind = .semicolon)
      (he : Derives (.expression .lowest e) (t :: es)) (ht : ts = t :: es ++ [c]) :
      Derives (.statement (.expression t e (.over t.span.start ts))) ts
  | statementsEnd : Derives (.statements []) []
  | statement {ts us : List Token} {s : Stmt} {ss : List Stmt} (hs : Derives (.statement s) ts)
      (hss : Derives (.statements ss) us) : Derives (.statements (s :: ss)) (ts ++ us)
  | unended {ts us : List Token} {t : Token} {e : Expr} {ss : List Stmt}
      (he : Derives (.expression .lowest e) (t :: ts)) (hss : Derives (.statements ss) us)
      (hu : Unextended us) :
      Derives (.statements (.expression t e (.over t.span.start (t :: ts)) :: ss)) (t :: ts ++ us)

/-- Among the tokens, those of the list that an expression holds stand side by side: the parameters of
a function or the arguments of a call. -/
def Expr.ListedIn (ts : List Token) : Expr → Prop
  | .function _ ps _ _ => ∃ us, us <:+: ts ∧ Derives (.parameters ps) us
  | .call _ _ as _ => ∃ us, us <:+: ts ∧ Derives (.arguments as) us
  | _ => True

theorem Expr.ListedIn.mono {us ts : List Token} {e : Expr} (h : e.ListedIn us) (hi : us <:+: ts) :
    e.ListedIn ts := by
  cases e with
  | function _ _ _ _ =>
    obtain ⟨vs, hvs, hp⟩ := h
    exact ⟨vs, hvs.trans hi, hp⟩
  | call _ _ _ _ =>
    obtain ⟨vs, hvs, ha⟩ := h
    exact ⟨vs, hvs.trans hi, ha⟩
  | _ => trivial

/-- The tokens of an expression hold those of its list. -/
theorem Derives.listedIn {level : Power} {e : Expr} {ts : List Token}
    (h : Derives (.expression level e) ts) : e.ListedIn ts := by
  generalize hf : Form.expression level e = f at h
  induction h generalizing level e with
  | tighter _ _ ih =>
    cases hf
    exact ih rfl
  | @group _ o c _ _ _ _ ih =>
    cases hf
    exact (ih rfl).mono ⟨[o], [c], rfl⟩
  | @call _ fs as o c _ _ _ _ _ ha ht =>
    cases hf
    exact ⟨as, ⟨fs ++ [o], [c], by simp [ht]⟩, ha⟩
  | @function _ ps bs f o c _ _ _ _ _ hp _ ht =>
    cases hf
    exact ⟨ps, ⟨[f, o], c :: bs, ht.symm⟩, hp⟩
  | _ => cases hf <;> trivial

/-- The program that tokens spell, the end of the text among them: its span is that of the whole
text. -/
def Program.DerivedFrom (p : Program) (ts : List Token) : Prop :=
  ∃ us stop, ts = us ++ [stop] ∧ stop.kind = .eof ∧ Derives (.statements p.body) us ∧
    p.span = ⟨0, stop.span.stop⟩

end Monkey

import Monkey.Proofs.GrammarComplete
import Monkey.Proofs.Layout
import Monkey.Proofs.Places

/-!
# Reading what was written

The text of a tree, read again, is the tree, as long as the text shows all of it. That is the case
for bindings and returns, and for one expression behind them, without conditionals, functions and
holes (`Program.Closed`). Each operator then stands in parentheses of its own, so by the grammar the
text of an expression is an operand, which nothing that follows can take apart (`Expr.SpelledBy`).
Main statement: `read_text_of_closed`.
-/

namespace Monkey

open Lexeme

/-- A token is spelled as its kind demands. -/
def Token.Spelled (t : Token) : Prop := t.lexeme.Spelled

/-- An expression of names, numbers, truth values, operators and calls, with every part in its
place and every token spelled as it should be. -/
inductive Expr.Closed : Expr → Prop where
  | symbol {s : Symbol} (hk : s.token.kind = .identifier) (ht : s.token.Spelled)
      (hn : s.name = s.token.text) : Closed (.symbol s)
  | number {t : Token} {v : Int} {p : Span} (hk : t.kind = .integer) (ht : t.Spelled)
      (hv : v = t.decimal) (hl : t.decimal ≤ numberLimit) : Closed (.number t v p)
  | boolean {t : Token} {v : Bool} {p : Span} (hk : t.kind = if v then .trueWord else .falseWord)
      (ht : t.Spelled) : Closed (.boolean t v p)
  | unary {op : Token} {e : Expr} {p : Span} (hk : op.kind = .dash ∨ op.kind = .bang)
      (ht : op.Spelled) (he : Closed e) : Closed (.unary op e p)
  | binary {op : Token} {l r : Expr} {p : Span} (hk : op.kind.operatorLevel?.isSome = true)
      (ht : op.Spelled) (hl : Closed l) (hr : Closed r) : Closed (.binary l op r p)
  | call {f : Expr} {o : Token} {es : List Expr} {p : Span} (hk : o.kind = .openParen)
      (ht : o.Spelled) (hf : Closed f) (hes : ∀ e ∈ es, Closed e) : Closed (.call f o es p)

/-- Bindings and returns, and perhaps one expression behind them. -/
inductive Stmt.ClosedAll : List Stmt → Prop where
  | nil : ClosedAll []
  | binding {l : Token} {s : Symbol} {v : Expr} {p : Span} {ss : List Stmt} (hl : l.kind = .letWord)
      (hls : l.Spelled) (hs : Expr.Closed (.symbol s)) (hv : v.Closed) (h : ClosedAll ss) :
      ClosedAll (.binding l s v p :: ss)
  | returning {r : Token} {v : Expr} {p : Span} {ss : List Stmt} (hr : r.kind = .returnWord)
      (hrs : r.Spelled) (hv : v = .absent ∨ v.Closed) (h : ClosedAll ss) :
      ClosedAll (.returning r v p :: ss)
  | last {t : Token} {v : Expr} {p : Span} (hv : v.Closed) : ClosedAll [.expression t v p]

/-- A program whose text shows all of it. -/
def Program.Closed (p : Program) : Prop := Stmt.ClosedAll p.body

/-- A statement without places, and without the token that introduces an expression. -/
def Stmt.shape : Stmt → Stmt
  | .expression _ v _ => .expression default (v.mapSpan .erase) ⟨0, 0⟩
  | s => s.mapSpan .erase

/-- The statements of a program without places. -/
def Program.shape (p : Program) : List Stmt := p.body.map Stmt.shape

variable {t u : Token} {e : Expr} {ls : List Lexeme} {cs rest : List Char}

/-- Tokens with the same lexeme differ in their places only. -/
theorem Token.erase_eq (h : t.lexeme = u.lexeme) : t.mapSpan .erase = u.mapSpan .erase := by
  rw [Token.mapSpan, Token.mapSpan, Token.kind_eq h, Token.text_eq h]
  rfl

/-- The lexeme of a token whose kind has one spelling. -/
theorem Token.lexeme_of_spelling {text : String} (h : t.Spelled)
    (hk : t.kind.spelling? = some text) : t.lexeme = ⟨t.kind, text.toList⟩ := by
  have hchars : t.lexeme.chars = text.toList := Lexeme.Spelled.chars_eq h hk
  rw [← hchars]
  rfl

/-- Lexemes that spell an expression as an operand: the text of the expression is laid out from
them, and tokens with these lexemes are by the grammar the expression again, up to places. -/
structure Expr.SpelledBy (e : Expr) (ls : List Lexeme) : Prop where
  begins : ∃ c cs, e.text.toList = c :: cs ∧ c ≠ '='
  layout : ∀ rest, Apart rest → Layout (e.text.toList ++ rest) ls rest
  derives : ∀ ts : List Token, ts.map Token.lexeme = ls →
    ∃ e' : Expr, Derives (.expression .call e') ts ∧ e'.mapSpan .erase = e.mapSpan .erase

/-- An expression of one token. -/
theorem spelledBy_of_atom (ht : t.Spelled) (ha : t.kind ≠ .assign) (he : t.kind ≠ .equals)
    (htext : e.text = t.text)
    (h : ∀ u : Token, u.lexeme = t.lexeme →
      ∃ e' : Expr, Derives (.expression .call e') [u] ∧ e'.mapSpan .erase = e.mapSpan .erase) :
    e.SpelledBy [t.lexeme] where
  begins := by
    rw [htext]
    exact Lexeme.Spelled.head_ne ht ha he
  layout rest hrest := by
    rw [htext]
    exact Layout.empty.lexeme ht (hrest.endsBefore _)
  derives ts hts := by
    obtain ⟨u, us, rfl, hu, hus⟩ := List.map_eq_cons_iff.1 hts
    obtain rfl := List.map_eq_nil_iff.1 hus
    exact h u hu

theorem layout_closeParen : Layout (')' :: rest) [⟨.closeParen, [')']⟩] rest :=
  Layout.mark rfl (by decide) .empty

/-- Tokens with the lexemes of some text between parentheses. -/
theorem tokens_of_parens {ts : List Token}
    (h : ts.map Token.lexeme = ⟨.openParen, ['(']⟩ :: (ls ++ [⟨.closeParen, [')']⟩])) :
    ∃ o us c, ts = o :: us ++ [c] ∧ o.lexeme = ⟨.openParen, ['(']⟩ ∧ c.kind = .closeParen ∧
      us.map Token.lexeme = ls := by
  obtain ⟨o, vs, rfl, ho, hvs⟩ := List.map_eq_cons_iff.1 h
  obtain ⟨us, ws, rfl, hus, hws⟩ := List.map_eq_append_iff.1 hvs
  obtain ⟨c, xs, rfl, hc, hxs⟩ := List.map_eq_cons_iff.1 hws
  obtain rfl := List.map_eq_nil_iff.1 hxs
  exact ⟨o, us, c, rfl, ho, congrArg Lexeme.kind hc, hus⟩

variable {op o : Token} {l r f : Expr} {p : Span} {ms : List Lexeme} {es : List Expr}

theorem unary_spelledBy (hk : op.kind = .dash ∨ op.kind = .bang) (ht : op.Spelled)
    (he : e.SpelledBy ls) :
    (Expr.unary op e p).SpelledBy
      (⟨.openParen, ['(']⟩ :: (op.lexeme :: ls ++ [⟨.closeParen, [')']⟩])) where
  begins := ⟨'(', op.text.toList ++ (e.text.toList ++ [')']), by simp [Expr.text], by decide⟩
  layout rest _ := by
    have htext : (Expr.unary op e p).text.toList ++ rest =
        '(' :: (op.lexeme.chars ++ (e.text.toList ++ ')' :: rest)) := by
      simp [Expr.text, Token.lexeme]
    -- a sign is made no other mark by what its operand begins with
    have hsign : op.lexeme.EndsBefore (e.text.toList ++ ')' :: rest) := by
      obtain ⟨c, cs, hcs, hne⟩ := he.begins
      have hhead : ∀ d ∈ (e.text.toList ++ ')' :: rest).head?, d ≠ '=' := by
        rw [hcs]
        rintro d ⟨⟩
        exact hne
      have hmark : ∃ c : Char, op.lexeme = ⟨op.kind, [c]⟩ ∧
          c.isDigit = false ∧ c.isAlpha = false := by
        rcases hk with hk | hk
        · have hdash : op.kind.spelling? = some "-" := by rw [hk]; rfl
          exact ⟨'-', Token.lexeme_of_spelling ht hdash, by decide⟩
        · have hbang : op.kind.spelling? = some "!" := by rw [hk]; rfl
          exact ⟨'!', Token.lexeme_of_spelling ht hbang, by decide⟩
      obtain ⟨c, hop, hclass⟩ := hmark
      rw [hop]
      exact endsBefore_mark hclass fun d hd => ofPair?_of_ne (hhead d hd)
    rw [htext]
    have hoperand := (he.layout (')' :: rest) (apart_cons (by decide))).append layout_closeParen
    exact Layout.mark rfl (by decide) (hoperand.lexeme ht hsign)
  derives ts hts := by
    obtain ⟨o, us, c, rfl, ho, hc, hus⟩ := tokens_of_parens hts
    obtain ⟨op', vs, rfl, hop, hvs⟩ := List.map_eq_cons_iff.1 hus
    obtain ⟨e', hd, hsame⟩ := he.derives vs hvs
    have hk' : op'.kind = .dash ∨ op'.kind = .bang := by rwa [Token.kind_eq hop]
    have hsign := Derives.unary hk' (.tighter (by decide) hd) rfl
    refine ⟨_, .group (congrArg Lexeme.kind ho) hc (.tighter (by decide) hsign), ?_⟩
    rw [Expr.mapSpan, Expr.mapSpan, Token.erase_eq hop, hsame]
    rfl

theorem binary_spelledBy (hk : op.kind.operatorLevel?.isSome = true) (ht : op.Spelled)
    (hl : l.SpelledBy ls) (hr : r.SpelledBy ms) :
    (Expr.binary l op r p).SpelledBy
      (⟨.openParen, ['(']⟩ :: (ls ++ op.lexeme :: ms ++ [⟨.closeParen, [')']⟩])) where
  begins := by
    simp only [Expr.text, String.append_assoc]
    rw [String.toList_append]
    exact ⟨'(', _, rfl, by decide⟩
  layout rest _ := by
    have htext : (Expr.binary l op r p).text.toList ++ rest =
        '(' :: (l.text.toList ++
          ' ' :: (op.lexeme.chars ++ ' ' :: (r.text.toList ++ ')' :: rest))) := by
      simp [Expr.text, Token.lexeme]
    -- the operator stands between two spaces, so neither operand can go on with it
    have hright := (hr.layout (')' :: rest) (apart_cons (by decide))).append layout_closeParen
    have hboth := (hl.layout _ (apart_cons (by decide))).append (hright.spaced ht).space
    rw [htext, List.append_assoc]
    exact Layout.mark rfl (by decide) hboth
  derives ts hts := by
    obtain ⟨o, us, c, rfl, ho, hc, hus⟩ := tokens_of_parens hts
    obtain ⟨vs, ws, rfl, hvs, hws⟩ := List.map_eq_append_iff.1 hus
    obtain ⟨op', xs, rfl, hop, hxs⟩ := List.map_eq_cons_iff.1 hws
    obtain ⟨l', hdl, hsamel⟩ := hl.derives vs hvs
    obtain ⟨r', hdr, hsamer⟩ := hr.derives xs hxs
    obtain ⟨level, hlevel⟩ := Option.isSome_iff_exists.1 hk
    have hbounds : Power.lowest < level ∧ level < .call := operatorLevel_bounds hlevel
    have hchain := Derives.binary (by rw [Token.kind_eq hop, hlevel]) hbounds.2
      (.tighter hbounds.2 hdl) hdr rfl
    refine ⟨_, .group (congrArg Lexeme.kind ho) hc (.tighter hbounds.1 hchain), ?_⟩
    rw [Expr.mapSpan, Expr.mapSpan, Token.erase_eq hop, hsamel, hsamer]
    rfl

/-- Lexemes that spell the arguments of a call. -/
structure Expr.SpelledAllBy (es : List Expr) (ls : List Lexeme) : Prop where
  layout : ∀ rest, Apart rest →
    Layout ((commaSeparated (Expr.texts es)).toList ++ rest) ls rest
  derives : ∀ ts : List Token, ts.map Token.lexeme = ls →
    ∃ es' : List Expr, Derives (.arguments es') ts ∧
      Expr.mapSpanAll .erase es' = Expr.mapSpanAll .erase es

theorem nil_spelledAllBy : Expr.SpelledAllBy [] [] where
  layout _ _ := .empty
  derives ts hts := by
    obtain rfl := List.map_eq_nil_iff.1 hts
    exact ⟨[], .argumentsEnd, rfl⟩

theorem singleton_spelledAllBy (he : e.SpelledBy ls) : Expr.SpelledAllBy [e] ls where
  layout := he.layout
  derives ts hts := by
    obtain ⟨e', hd, hsame⟩ := he.derives ts hts
    have hargs := Derives.argument (.tighter (by decide) hd) .argumentsEnd unextended_nil
    rw [List.append_nil] at hargs
    exact ⟨[e'], hargs, by rw [Expr.mapSpanAll, hsame]; rfl⟩

theorem cons_spelledAllBy (he : e.SpelledBy ls) (hes : Expr.SpelledAllBy (f :: es) ms) :
    Expr.SpelledAllBy (e :: f :: es) (ls ++ ⟨.comma, [',']⟩ :: ms) where
  layout rest hrest := by
    have htext : (commaSeparated (Expr.texts (e :: f :: es))).toList ++ rest =
        e.text.toList ++ ',' :: ' ' :: ((commaSeparated (Expr.texts (f :: es))).toList ++ rest) := by
      simp [Expr.texts, commaSeparated]
    rw [htext]
    exact (he.layout _ (apart_cons (by decide))).append
      (Layout.mark rfl (by decide) (hes.layout rest hrest).space)
  derives ts hts := by
    obtain ⟨us, vs, rfl, hus, hvs⟩ := List.map_eq_append_iff.1 hts
    obtain ⟨c, ws, rfl, hc, hws⟩ := List.map_eq_cons_iff.1 hvs
    obtain ⟨e', hd, hsame⟩ := he.derives us hus
    obtain ⟨es', hds, hsames⟩ := hes.derives ws hws
    have hk : c.kind = .comma := congrArg Lexeme.kind hc
    -- the comma keeps the next argument from being taken into this one
    have hcomma : Unextended (c :: ws) := by
      rintro t ⟨⟩
      rw [hk]
      rfl
    refine ⟨e' :: es', .argument (.tighter (by decide) hd) (.comma hk hds) hcomma, ?_⟩
    rw [Expr.mapSpanAll, hsame, hsames]
    rfl

/-- Arguments that are spelled as operands are spelled together. -/
theorem spelledAllBy_of_forall (h : ∀ e ∈ es, ∃ ls, e.SpelledBy ls) :
    ∃ ls, Expr.SpelledAllBy es ls := by
  induction es with
  | nil => exact ⟨_, nil_spelledAllBy⟩
  | cons e es ih =>
    obtain ⟨ls, he⟩ := h e List.mem_cons_self
    cases es with
    | nil => exact ⟨ls, singleton_spelledAllBy he⟩
    | cons f es =>
      obtain ⟨ms, hes⟩ := ih fun x hx => h x (List.mem_cons_of_mem e hx)
      exact ⟨_, cons_spelledAllBy he hes⟩

theorem call_spelledBy (hk : o.kind = .openParen) (ht : o.Spelled) (hf : f.SpelledBy ls)
    (hes : Expr.SpelledAllBy es ms) :
    (Expr.call f o es p).SpelledBy
      (ls ++ ⟨.openParen, ['(']⟩ :: (ms ++ [⟨.closeParen, [')']⟩])) where
  begins := by
    obtain ⟨c, cs, hcs, hc⟩ := hf.begins
    rw [Expr.text, String.append_assoc, String.append_assoc, String.toList_append, hcs]
    exact ⟨c, _, rfl, hc⟩
  layout rest _ := by
    have htext : (Expr.call f o es p).text.toList ++ rest =
        f.text.toList ++ '(' :: ((commaSeparated (Expr.texts es)).toList ++ ')' :: rest) := by
      simp [Expr.text]
    have hargs := (hes.layout (')' :: rest) (apart_cons (by decide))).append layout_closeParen
    rw [htext]
    exact (hf.layout _ (apart_cons (by decide))).append (Layout.mark rfl (by decide) hargs)
  derives ts hts := by
    obtain ⟨us, vs, rfl, hus, hvs⟩ := List.map_eq_append_iff.1 hts
    obtain ⟨o', ws, c, rfl, ho, hc, hws⟩ := tokens_of_parens hvs
    obtain ⟨f', hdf, hsame⟩ := hf.derives us hus
    obtain ⟨es', hds, hsames⟩ := hes.derives ws hws
    have ho' : o'.lexeme = o.lexeme := by
      rw [ho, Token.lexeme_of_spelling ht (by rw [hk]; rfl), hk]
      rfl
    -- a callee is an operand, so it needs no parentheses of its own
    have hcall := Derives.call (congrArg Lexeme.kind ho) hc hdf hds rfl
    rw [List.append_assoc] at hcall
    refine ⟨_, hcall, ?_⟩
    rw [Expr.mapSpan, Expr.mapSpan, Token.erase_eq ho', hsame, hsames]
    rfl

/-- **Every closed expression is spelled as an operand.** -/
theorem Expr.Closed.spelledBy (h : e.Closed) : ∃ ls, e.SpelledBy ls := by
  induction h with
  | @symbol s hk ht hn =>
    refine ⟨_, spelledBy_of_atom ht (by simp [hk]) (by simp [hk]) (by rw [Expr.text, hn]) ?_⟩
    intro u hu
    refine ⟨_, .identifier ((Token.kind_eq hu).trans hk), ?_⟩
    have hname : u.text = s.name := (Token.text_eq hu).trans hn.symm
    rw [Expr.mapSpan, Expr.mapSpan, Symbol.mapSpan, Symbol.mapSpan, Symbol.ofToken,
      Token.erase_eq hu, hname]
    rfl
  | @number t v p hk ht hv hl =>
    refine ⟨_, spelledBy_of_atom ht (by simp [hk]) (by simp [hk]) (by rw [Expr.text]) ?_⟩
    intro u hu
    have hvalue : u.decimal = t.decimal := by rw [Token.decimal, Token.text_eq hu, Token.decimal]
    refine ⟨_, .integer ((Token.kind_eq hu).trans hk) (by rw [hvalue]; exact hl), ?_⟩
    rw [Expr.mapSpan, Expr.mapSpan, Token.erase_eq hu, hvalue, hv]
    rfl
  | @boolean t v p hk ht =>
    have hkind : t.kind ≠ .assign ∧ t.kind ≠ .equals := by
      rw [hk]
      cases v <;> decide
    refine ⟨_, spelledBy_of_atom ht hkind.1 hkind.2 (by rw [Expr.text]) ?_⟩
    intro u hu
    cases v with
    | true =>
      refine ⟨_, .truth ((Token.kind_eq hu).trans hk), ?_⟩
      rw [Expr.mapSpan, Expr.mapSpan, Token.erase_eq hu]
      rfl
    | false =>
      refine ⟨_, .falsehood ((Token.kind_eq hu).trans hk), ?_⟩
      rw [Expr.mapSpan, Expr.mapSpan, Token.erase_eq hu]
      rfl
  | unary hk ht _ ih =>
    obtain ⟨ls, he⟩ := ih
    exact ⟨_, unary_spelledBy hk ht he⟩
  | binary hk ht _ _ ihl ihr =>
    obtain ⟨ls, hl⟩ := ihl
    obtain ⟨ms, hr⟩ := ihr
    exact ⟨_, binary_spelledBy hk ht hl hr⟩
  | call hk ht _ _ ihf ihes =>
    obtain ⟨ls, hf⟩ := ihf
    obtain ⟨ms, hes⟩ := spelledAllBy_of_forall ihes
    exact ⟨_, call_spelledBy hk ht hf hes⟩

/-- Lexemes that spell the statements of a program. -/
structure Stmt.SpelledAllBy (ss : List Stmt) (ls : List Lexeme) : Prop where
  layout : Layout (Stmt.textAll ss).toList ls []
  derives : ∀ ts : List Token, ts.map Token.lexeme = ls →
    ∃ ss' : List Stmt, Derives (.statements ss') ts ∧ ss'.map Stmt.shape = ss.map Stmt.shape

variable {s : Symbol} {v : Expr} {ss : List Stmt}

/-- A semicolon and what stands behind it. -/
theorem layout_semicolon (h : Layout cs ls rest) :
    Layout (';' :: cs) (⟨.semicolon, [';']⟩ :: ls) rest :=
  Layout.mark rfl (by decide) h

theorem binding_spelledAllBy (hl : t.kind = .letWord) (hls : t.Spelled)
    (hs : Expr.Closed (.symbol s)) (hv : v.SpelledBy ls) (h : Stmt.SpelledAllBy ss ms) :
    Stmt.SpelledAllBy (.binding t s v p :: ss)
      (t.lexeme :: s.token.lexeme :: ⟨.assign, ['=']⟩ :: (ls ++ ⟨.semicolon, [';']⟩ :: ms)) := by
  cases hs with
  | symbol hk ht hn =>
    constructor
    · have htext : (Stmt.textAll (.binding t s v p :: ss)).toList =
          t.lexeme.chars ++ ' ' :: (s.token.lexeme.chars ++ ' ' :: (['='] ++ ' ' ::
            (v.text.toList ++ ';' :: (Stmt.textAll ss).toList))) := by
        simp [Stmt.textAll, Stmt.text, Token.lexeme, hn]
      rw [htext]
      have hvalue := (hv.layout _ (apart_cons (by decide))).append (layout_semicolon h.layout)
      have hassign := hvalue.spaced (l := ⟨.assign, ['=']⟩) (.mark rfl)
      exact (hassign.spaced ht).spaced hls
    · intro ts hts
      obtain ⟨t', ts, rfl, ht', hts⟩ := List.map_eq_cons_iff.1 hts
      obtain ⟨i, ts, rfl, hi, hts⟩ := List.map_eq_cons_iff.1 hts
      obtain ⟨a, ts, rfl, ha, hts⟩ := List.map_eq_cons_iff.1 hts
      obtain ⟨us, ts, rfl, hus, hts⟩ := List.map_eq_append_iff.1 hts
      obtain ⟨c, ws, rfl, hc, hws⟩ := List.map_eq_cons_iff.1 hts
      obtain ⟨v', hd, hsame⟩ := hv.derives us hus
      obtain ⟨ss', hds, hshape⟩ := h.derives ws hws
      have hbinding := Derives.binding ((Token.kind_eq ht').trans hl) ((Token.kind_eq hi).trans hk)
        (congrArg Lexeme.kind ha) (congrArg Lexeme.kind hc) (.tighter (by decide) hd) rfl
      have hall := Derives.statement hbinding hds
      simp only [List.append_assoc, List.cons_append, List.nil_append] at hall
      refine ⟨_, hall, ?_⟩
      have hname : i.text = s.name := (Token.text_eq hi).trans hn.symm
      simp only [List.map_cons, Stmt.shape, Stmt.mapSpan, Symbol.mapSpan, Symbol.ofToken,
        Token.erase_eq ht', Token.erase_eq hi, hname, hsame, hshape]
      rfl

theorem returningNothing_spelledAllBy (hr : t.kind = .returnWord) (hrs : t.Spelled)
    (h : Stmt.SpelledAllBy ss ms) :
    Stmt.SpelledAllBy (.returning t .absent p :: ss)
      (t.lexeme :: ⟨.semicolon, [';']⟩ :: ms) where
  layout := by
    have htext : (Stmt.textAll (.returning t .absent p :: ss)).toList =
        t.lexeme.chars ++ ' ' :: ';' :: (Stmt.textAll ss).toList := by
      simp [Stmt.textAll, Stmt.text, Expr.text, Token.lexeme]
    rw [htext]
    exact (layout_semicolon h.layout).spaced hrs
  derives ts hts := by
    obtain ⟨t', ts, rfl, ht', hts⟩ := List.map_eq_cons_iff.1 hts
    obtain ⟨c, ws, rfl, hc, hws⟩ := List.map_eq_cons_iff.1 hts
    obtain ⟨ss', hds, hshape⟩ := h.derives ws hws
    have hreturning := Derives.returningNothing ((Token.kind_eq ht').trans hr)
      (congrArg Lexeme.kind hc) rfl
    refine ⟨_, .statement hreturning hds, ?_⟩
    simp only [List.map_cons, Stmt.shape, Stmt.mapSpan, Token.erase_eq ht', hshape]
    rfl

theorem returning_spelledAllBy (hr : t.kind = .returnWord) (hrs : t.Spelled)
    (hv : v.SpelledBy ls) (h : Stmt.SpelledAllBy ss ms) :
    Stmt.SpelledAllBy (.returning t v p :: ss)
      (t.lexeme :: (ls ++ ⟨.semicolon, [';']⟩ :: ms)) where
  layout := by
    have htext : (Stmt.textAll (.returning t v p :: ss)).toList =
        t.lexeme.chars ++ ' ' :: (v.text.toList ++ ';' :: (Stmt.textAll ss).toList) := by
      simp [Stmt.textAll, Stmt.text, Token.lexeme]
    rw [htext]
    exact ((hv.layout _ (apart_cons (by decide))).append (layout_semicolon h.layout)).spaced hrs
  derives ts hts := by
    obtain ⟨t', ts, rfl, ht', hts⟩ := List.map_eq_cons_iff.1 hts
    obtain ⟨us, ts, rfl, hus, hts⟩ := List.map_eq_append_iff.1 hts
    obtain ⟨c, ws, rfl, hc, hws⟩ := List.map_eq_cons_iff.1 hts
    obtain ⟨v', hd, hsame⟩ := hv.derives us hus
    obtain ⟨ss', hds, hshape⟩ := h.derives ws hws
    have hreturning := Derives.returning ((Token.kind_eq ht').trans hr) (congrArg Lexeme.kind hc)
      (.tighter (by decide) hd) rfl
    have hall := Derives.statement hreturning hds
    simp only [List.append_assoc, List.cons_append, List.nil_append] at hall
    refine ⟨_, hall, ?_⟩
    simp only [List.map_cons, Stmt.shape, Stmt.mapSpan, Token.erase_eq ht', hsame, hshape]
    rfl

theorem last_spelledAllBy (hv : v.SpelledBy ls) : Stmt.SpelledAllBy [.expression t v p] ls where
  layout := by
    have htext : (Stmt.textAll [.expression t v p]).toList = v.text.toList ++ [] := by
      simp [Stmt.textAll, Stmt.text]
    rw [htext]
    exact hv.layout [] apart_nil
  derives ts hts := by
    obtain ⟨v', hd, hsame⟩ := hv.derives ts hts
    obtain ⟨t', us, rfl, -⟩ := hd.begins
    have hall := Derives.unended (.tighter (by decide) hd) .statementsEnd unextended_nil
    rw [List.append_nil] at hall
    refine ⟨_, hall, ?_⟩
    rw [List.map_singleton, List.map_singleton, Stmt.shape, Stmt.shape, hsame]

theorem Stmt.ClosedAll.spelledAllBy (h : Stmt.ClosedAll ss) : ∃ ls, Stmt.SpelledAllBy ss ls := by
  induction h with
  | nil =>
    refine ⟨[], .empty, fun ts hts => ?_⟩
    obtain rfl := List.map_eq_nil_iff.1 hts
    exact ⟨[], .statementsEnd, rfl⟩
  | binding hl hls hs hv _ ih =>
    obtain ⟨ls, hv⟩ := hv.spelledBy
    obtain ⟨ms, hss⟩ := ih
    exact ⟨_, binding_spelledAllBy hl hls hs hv hss⟩
  | returning hr hrs hv _ ih =>
    obtain ⟨ms, hss⟩ := ih
    rcases hv with rfl | hv
    · exact ⟨_, returningNothing_spelledAllBy hr hrs hss⟩
    · obtain ⟨ls, hv⟩ := hv.spelledBy
      exact ⟨_, returning_spelledAllBy hr hrs hv hss⟩
  | last hv =>
    obtain ⟨ls, hv⟩ := hv.spelledBy
    exact ⟨ls, last_spelledAllBy hv⟩

/-- The text of some statements shows their shape only. -/
theorem Stmt.textAll_map_shape (ss : List Stmt) :
    Stmt.textAll (ss.map Stmt.shape) = Stmt.textAll ss := by
  induction ss with
  | nil => rfl
  | cons s ss ih =>
    have hs : s.shape.text = s.text := by
      cases s with
      | expression _ v _ => exact v.text_mapSpan _
      | _ => exact Stmt.text_mapSpan _ _
    rw [List.map_cons, Stmt.textAll, Stmt.textAll, hs, ih]

theorem text_eq_of_shape {p q : Program} (h : p.shape = q.shape) : p.text = q.text := by
  rw [Program.text, Program.text, ← Stmt.textAll_map_shape, ← Stmt.textAll_map_shape q.body]
  exact congrArg Stmt.textAll h

/-- A closed program is read back from its text. -/
theorem read_text {p : Program} (h : p.Closed) (recovery : Recovery) :
    (read p.text recovery).diagnostics = [] ∧
      (read p.text recovery).program.shape = p.shape := by
  obtain ⟨ls, hlayout, hderives⟩ := Stmt.ClosedAll.spelledAllBy h
  have hlexemes : (Scanner.ofString p.text).drain.ahead.map Token.lexeme = ls :=
    hlayout.drain_lexemes rfl
  obtain ⟨ss', hd, hshape⟩ := hderives _ hlexemes
  rw [read_of_statements recovery hd]
  exact ⟨rfl, hshape⟩

/-- **Reading undoes writing.** The text of a closed program is read without a fault, as that program
up to places, which is then written as the same text; and closed programs with the same text are the
same up to places. -/
theorem read_text_of_closed {p : Program} (h : p.Closed) (recovery : Recovery) :
    ((read p.text recovery).diagnostics = [] ∧
      (read p.text recovery).program.shape = p.shape) ∧
      (read p.text recovery).program.text = p.text ∧
      ∀ q : Program, q.Closed → q.text = p.text → q.shape = p.shape := by
  obtain ⟨hnone, hshape⟩ := read_text h recovery
  refine ⟨⟨hnone, hshape⟩, text_eq_of_shape hshape, ?_⟩
  intro q hq htext
  have hshape' := (read_text hq recovery).2
  rw [htext] at hshape'
  exact hshape'.symm.trans hshape

/-- The program `let n = (-f)(2);`, read from anywhere. -/
def negatedCall : Program :=
  ⟨[.binding ⟨.letWord, "let", default⟩ (.ofToken ⟨.identifier, "n", default⟩)
      (.call
        (.unary ⟨.dash, "-", default⟩ (.symbol (.ofToken ⟨.identifier, "f", default⟩)) default)
        ⟨.openParen, "(", default⟩ [.number ⟨.integer, "2", default⟩ 2 default] default)
      default],
    default⟩

theorem negatedCall_closed : negatedCall.Closed := by
  have hname (c : Char) (hc : c.isAlpha = true)
      (hk : Kind.ofWord (String.ofList [c]) = .identifier) :
      Expr.Closed (.symbol (.ofToken ⟨.identifier, String.ofList [c], default⟩)) := by
    have hword : Lexeme.Spelled (word [c]) :=
      .word (List.cons_ne_nil _ _) (List.forall_mem_singleton.2 hc)
    rw [word, hk] at hword
    refine .symbol rfl ?_ rfl
    rw [Token.Spelled, Token.lexeme, Symbol.ofToken, String.toList_ofList]
    exact hword
  have hlet : Lexeme.Spelled (word ['l', 'e', 't']) :=
    .word (List.cons_ne_nil _ _) (List.all_eq_true.1 rfl)
  have htwo : Lexeme.Spelled ⟨.integer, ['2']⟩ :=
    .integer (List.cons_ne_nil _ _) (List.all_eq_true.1 rfl)
  have hnumber : Expr.Closed (.number ⟨.integer, "2", default⟩ 2 default) :=
    .number rfl htwo (by decide) (by decide)
  have hsign := @Expr.Closed.unary ⟨.dash, "-", default⟩ _ default (.inl rfl) (.mark rfl)
    (hname 'f' (by decide) (by decide))
  have hcall := Expr.Closed.call (o := ⟨.openParen, "(", default⟩) (p := default) rfl (.mark rfl)
    hsign (List.forall_mem_singleton.2 hnumber)
  exact .binding rfl hlet (hname 'n' (by decide) (by decide)) hcall .nil

theorem read_text_of_negatedCall :
    negatedCall.Closed ∧ (read negatedCall.text .lenient).diagnostics = [] ∧
      (read negatedCall.text .lenient).program.shape = negatedCall.shape :=
  ⟨negatedCall_closed, (read_text_of_closed negatedCall_closed .lenient).1⟩

end Monkey

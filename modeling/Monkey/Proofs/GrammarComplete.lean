import Monkey.Proofs.Faults
import Monkey.Proofs.Levels
import Monkey.Proofs.Tokens

/-!
# Every derivation is read

By induction on a derivation: wherever its tokens are to come, the readers of the language read its
tree from them and note no fault (`Derives.reads`). An expression is read in the middle of a chain,
so what is shown of it is that reading it is as good as going on behind it with its tree as the first
operand. Main statement: a text whose tokens spell a program is read as that program
(`read_of_derivedFrom`).
-/

namespace Monkey

open Descent

variable {f : Form} {ts us : List Token} {e : Expr} {s s₁ s' : State} {t : Token}

/-- How the tokens of a form begin. -/
def Form.Begins : Form → List Token → Prop
  | .expression _ _, ts => ∃ t us, ts = t :: us ∧ (Table.standard.prefixRule t.kind).isSome = true
  | .block _, ts => ∃ t us, ts = t :: us ∧ t.kind = .openCurly
  | .arguments _, ts =>
    ∀ t ∈ ts.head?, t.kind = .comma ∨ (Table.standard.prefixRule t.kind).isSome = true
  | .statement _, ts => ∃ t us, ts = t :: us ∧
      ((Table.standard.statementRule t.kind).isSome = true ∨
        (Table.standard.prefixRule t.kind).isSome = true)
  | .statements _, ts => ∀ t ∈ ts.head?, (Table.standard.statementRule t.kind).isSome = true ∨
      (Table.standard.prefixRule t.kind).isSome = true
  | _, _ => True

theorem Derives.begins (h : Derives f ts) : f.Begins ts := by
  induction h with
  | tighter _ _ ih => exact ih
  | binary _ _ _ _ ht ih =>
    obtain ⟨t, us, rfl, hp⟩ := ih
    exact ⟨t, _, ht, hp⟩
  | unary ho _ ht =>
    refine ⟨_, _, ht, ?_⟩
    rcases ho with ho | ho <;> rw [ho] <;> rfl
  | call _ _ _ _ ht ih =>
    obtain ⟨t, us, rfl, hp⟩ := ih
    exact ⟨t, _, ht, hp⟩
  | integer h => exact ⟨_, _, rfl, by rw [h]; rfl⟩
  | identifier h => exact ⟨_, _, rfl, by rw [h]; rfl⟩
  | truth h => exact ⟨_, _, rfl, by rw [h]; rfl⟩
  | falsehood h => exact ⟨_, _, rfl, by rw [h]; rfl⟩
  | group ho => exact ⟨_, _, rfl, by rw [ho]; rfl⟩
  | conditional hi _ _ _ _ _ ht => exact ⟨_, _, ht, by rw [hi]; rfl⟩
  | function hf _ _ _ _ ht => exact ⟨_, _, ht, by rw [hf]; rfl⟩
  | parametersEnd => trivial
  | parameter => trivial
  | parameterComma => trivial
  | argumentsEnd => exact fun t ht => by cases ht
  | comma h =>
    intro t ht
    cases ht
    exact .inl h
  | argument _ _ _ ih =>
    obtain ⟨t, us, rfl, hp⟩ := ih
    intro u hu
    cases hu
    exact .inr hp
  | block ho _ _ ht => exact ⟨_, _, ht, ho⟩
  | noAlternative => trivial
  | alternative => trivial
  | binding hl _ _ _ _ ht => exact ⟨_, _, ht, by rw [hl]; exact .inl rfl⟩
  | returningNothing hr _ ht => exact ⟨_, _, ht, by rw [hr]; exact .inl rfl⟩
  | returning hr _ _ ht => exact ⟨_, _, ht, by rw [hr]; exact .inl rfl⟩
  | blockStatement _ ih =>
    obtain ⟨t, us, rfl, ho⟩ := ih
    exact ⟨t, us, rfl, by rw [ho]; exact .inl rfl⟩
  | ended _ _ ht ih =>
    obtain ⟨t, us, hts, hp⟩ := ih
    cases hts
    exact ⟨_, _, ht, .inr hp⟩
  | statementsEnd => exact fun t ht => by cases ht
  | statement _ _ ih =>
    obtain ⟨t, us, rfl, hp⟩ := ih
    intro u hu
    cases hu
    exact hp
  | unended _ _ _ ih =>
    obtain ⟨t, us, hts, hp⟩ := ih
    cases hts
    intro u hu
    cases hu
    exact .inr hp

/-- The tree of an expression has a span. -/
theorem Derives.span?_isSome {level : Power} (h : Derives (.expression level e) ts) :
    e.span?.isSome = true := by
  generalize hf : Form.expression level e = f at h
  induction h generalizing level e with
  | tighter _ _ ih =>
    cases hf
    exact ih rfl
  | group _ _ _ ih =>
    cases hf
    exact ih rfl
  | _ => cases hf <;> rfl

theorem Derives.isAbsent {level : Power} (h : Derives (.expression level e) ts) :
    e.isAbsent = false := by
  have := h.span?_isSome
  cases e <;> first | rfl | cases this

/-- Where a node starts whose first operand is derived. -/
theorem Derives.startOf {level : Power} (h : Derives (.expression level e) ts) (t : Token) :
    startOf e t = e.start := by
  obtain ⟨span, hs⟩ := Option.isSome_iff_exists.1 h.span?_isSome
  simp [Descent.startOf, Expr.start, hs]

/-- How a form is read wherever its tokens are to come. -/
def Form.Reads : Form → List Token → Prop
  | .expression level e, ts => ∀ {s s₁ s' power e'}, Takes ts s s₁ → Admits power level →
      Ends level s₁.kind → Run .standard (.extension power e e') s₁ s' →
      Run .standard (.expression power e') s s'
  | .parameters ps, ts => ∀ {s s'}, Takes ts s s' → s'.kind = .closeParen →
      Run .standard (.parameters ps) s s'
  | .arguments es, ts => ∀ {s s'}, Takes ts s s' → s'.kind = .closeParen →
      Run .standard (.arguments es) s s'
  | .block b, ts => ∀ {s s'}, Takes ts s s' → Run .standard (.block b) s s'
  | .alternative b, ts => ∀ {s s'}, Takes ts s s' → s'.kind ≠ .elseWord →
      Run .standard (.alternative b) s s'
  | .statement st, ts => ∀ {s s'}, Takes ts s s' → Run .standard (.statement st) s s'
  | .statements ss, ts => ∀ {s s'}, Takes ts s s' → endsBlock s'.kind = true →
      Run .standard (.statements ss) s s'

theorem ends_closeParen {level : Power} : Ends level .closeParen :=
  ⟨Nat.zero_le _, by decide⟩

theorem ends_semicolon {level : Power} : Ends level .semicolon :=
  ⟨Nat.zero_le _, by decide⟩

/-- An expression that nothing goes on with is read as it is. -/
theorem Form.Reads.whole (h : (Form.expression .lowest e).Reads ts) (ht : Takes ts s s')
    (he : Ends .lowest s'.kind) : Run .standard (.expression .lowest e) s s' :=
  h ht (.inr ⟨rfl, .inl rfl⟩) he (.stop he.infixAbove)

/-- An expression that is read by its first token alone goes on behind that token. -/
theorem reads_of_literal (hp : Table.standard.prefixRule t.kind = some .literal)
    (hl : ∀ s : State, s.current = t → literal s = some (e, s.advance)) :
    (Form.expression .call e).Reads [t] := by
  intro s s₁ s' power e' ht _ _ hx
  obtain ⟨rfl, rfl⟩ := ht.eq_advance
  exact .expression hp (.literal (hl s rfl)) hx

theorem literal_of_integer (h : t.kind = .integer) (hn : t.decimal ≤ Lexeme.numberLimit)
    (hs : s.current = t) : literal s = some (.number t t.decimal t.span, s.advance) := by
  have hv : Lexeme.number? t.text = some t.decimal := if_pos hn
  simp [literal, hs, h, hv]

theorem literal_of_identifier (h : t.kind = .identifier) (hs : s.current = t) :
    literal s = some (.symbol (.ofToken t), s.advance) := by
  simp [literal, hs, h]

theorem literal_of_truth (h : t.kind = .trueWord) (hs : s.current = t) :
    literal s = some (.boolean t true t.span, s.advance) := by
  simp [literal, hs, h]

theorem literal_of_falsehood (h : t.kind = .falseWord) (hs : s.current = t) :
    literal s = some (.boolean t false t.span, s.advance) := by
  simp [literal, hs, h]

theorem binary_reads {ls rs : List Token} {level own : Power} {op : Token} {l r : Expr}
    (ho : op.kind.operatorLevel? = some level) (h : level < own)
    (hl : Derives (.expression level l) ls) (ihl : (Form.expression level l).Reads ls)
    (ihr : (Form.expression own r).Reads rs) :
    (Form.expression level (.binary l op r (.over l.start (ls ++ op :: rs)))).Reads
      (ls ++ op :: rs) := by
  intro s s₁ s' power e' ht hp he hx
  obtain ⟨s₂, hls, hrest⟩ := ht.split
  obtain ⟨hop, hrs⟩ := hrest.uncons
  have hkind : s₂.kind = op.kind := by rw [State.kind, hop]
  -- the operator ends the chain to its left, and is above the power that reads the chain
  have hends : Ends level s₂.kind := by
    rw [hkind]
    refine ⟨?_, ?_⟩
    · rw [Table.standard_power_of_operatorLevel ho]
      exact Nat.le_refl _
    · intro h'
      rw [h'] at ho
      cases ho
  have habove : Table.standard.infixAbove power s₂.kind = some (level, .binary) := by
    rw [hkind]
    exact Table.standard_infixAbove_eq_some (Table.standard_infixRule_binary ho)
      (hp.lt_of_operatorLevel ho)
  have hright : Run .standard (.expression level r) s₂.advance s₁ :=
    ihr hrs (.inl h) (he.mono (Power.le_of_lt h)) (.stop he.infixAbove)
  have hbinary : Run .standard (.following .binary level l _) s₂ s₁ := .binary hright
  rw [hrest.spanFrom (List.cons_ne_nil _ _) _ ls, hop, hl.startOf] at hbinary
  exact ihl hls hp hends (.extend habove hbinary hx)

theorem unary_reads {es : List Token} {op : Token} (ho : op.kind = .dash ∨ op.kind = .bang)
    (ih : (Form.expression .unary e).Reads es) :
    (Form.expression .unary (.unary op e (.over op.span.start (op :: es)))).Reads (op :: es) := by
  intro s s₁ s' power e' ht _ he hx
  have hspan := ht.spanFrom_over (List.cons_ne_nil _ _)
  obtain ⟨hop, hes⟩ := ht.uncons
  have hrule : Table.standard.prefixRule s.kind = some .unary := by
    rw [State.kind, hop]
    rcases ho with ho | ho <;> rw [ho] <;> rfl
  have hoperand : Run .standard (.expression .unary e) s.advance s₁ :=
    ih hes (.inr ⟨rfl, .inr rfl⟩) he (.stop he.infixAbove)
  have hunary := Run.unary hoperand
  rw [hspan, hop] at hunary
  exact .expression hrule hunary hx

theorem call_reads {fs as : List Token} {o c : Token} {es : List Expr} (ho : o.kind = .openParen)
    (hc : c.kind = .closeParen) (hf : Derives (.expression .call e) fs)
    (ihf : (Form.expression .call e).Reads fs) (iha : (Form.arguments es).Reads as) :
    (Form.expression .call (.call e o es (.over e.start (fs ++ o :: as ++ [c])))).Reads
      (fs ++ o :: as ++ [c]) := by
  intro s s₁ s' power e' ht hp _ hx
  rw [List.append_assoc] at ht
  obtain ⟨s₂, hfs, hrest⟩ := ht.split
  have hspan (start : Nat) := hrest.spanFrom (List.cons_ne_nil _ _) start fs
  obtain ⟨hop, hargs⟩ := hrest.uncons
  have hkind : s₂.kind = .openParen := by rw [State.kind, hop, ho]
  obtain ⟨s₃, has, hclose⟩ := hargs.split
  obtain ⟨hclosed, rfl⟩ := hclose.expectLast hc
  -- no power is above that of the parenthesis, so the callee ends here however it was made up
  have hends : Ends .call s₂.kind := by
    rw [hkind]
    exact ⟨by decide, by decide⟩
  have habove : Table.standard.infixAbove power s₂.kind = some (.call, .call) := by
    rw [hkind]
    refine Table.standard_infixAbove_eq_some rfl ?_
    rcases hp with hp | ⟨-, hp | hp⟩
    · exact hp
    all_goals cases hp
  have hcall : Run .standard (.following .call .call e _) s₂ _ := .call (iha has hclosed)
  rw [hspan, hop, hf.startOf, ← List.append_assoc] at hcall
  exact ihf hfs hp hends (.extend habove hcall hx)

theorem group_reads {es : List Token} {o c : Token} (ho : o.kind = .openParen)
    (hc : c.kind = .closeParen) (ih : (Form.expression .lowest e).Reads es)
    (ht : Takes (o :: es ++ [c]) s s') : Run .standard (.group e) s s' := by
  obtain ⟨-, -, hrest⟩ := ht.expect ho
  obtain ⟨s₁, hes, hclose⟩ := hrest.split
  obtain ⟨hclosed, rfl⟩ := hclose.expectLast hc
  exact .group (ih.whole hes (hclosed ▸ ends_closeParen))

theorem conditional_reads {cs bs as : List Token} {i o c : Token} {b : Block} {a : Option Block}
    (hi : i.kind = .ifWord) (ho : o.kind = .openParen) (hc : c.kind = .closeParen)
    (ihe : (Form.expression .lowest e).Reads cs) (ihb : (Form.block b).Reads bs)
    (iha : (Form.alternative a).Reads as)
    (ht : ts = i :: o :: cs ++ c :: (bs ++ as)) :
    (Form.expression .call (.conditional i e b a (.over i.span.start ts))).Reads ts := by
  intro s s₁ s' power e' htake _ he hx
  have hsplit : ts = i :: ((o :: cs ++ [c]) ++ (bs ++ as)) := by simp [ht]
  have hspan := htake.spanFrom_over (by simp [ht])
  rw [hsplit] at htake
  obtain ⟨hif, hrest⟩ := htake.uncons
  obtain ⟨s₂, hgroup, hrest⟩ := hrest.split
  obtain ⟨s₃, hbs, has⟩ := hrest.split
  have hrule : Table.standard.prefixRule s.kind = some .conditional := by
    rw [State.kind, hif, hi]
    rfl
  -- what follows the conditional is no `else`, or it would have been taken for an alternative
  have hrun := Run.conditional (group_reads ho hc ihe hgroup) (ihb hbs) (iha has he.2)
  rw [hspan, hif] at hrun
  exact .expression hrule hrun hx

theorem function_reads {ps bs : List Token} {f o c : Token} {params : List Symbol} {b : Block}
    (hf : f.kind = .fnWord) (ho : o.kind = .openParen) (hc : c.kind = .closeParen)
    (ihp : (Form.parameters params).Reads ps) (ihb : (Form.block b).Reads bs)
    (ht : ts = f :: o :: ps ++ c :: bs) :
    (Form.expression .call (.function f params b (.over f.span.start ts))).Reads ts := by
  intro s s₁ s' power e' htake _ _ hx
  have hspan := htake.spanFrom_over (by simp [ht])
  rw [ht, List.cons_append, List.cons_append] at htake
  obtain ⟨hfn, hrest⟩ := htake.uncons
  obtain ⟨-, -, hrest⟩ := hrest.expect ho
  obtain ⟨s₂, hps, hrest⟩ := hrest.split
  obtain ⟨-, hclosed, hbs⟩ := hrest.expect hc
  have hrule : Table.standard.prefixRule s.kind = some .function := by
    rw [State.kind, hfn, hf]
    rfl
  have hrun := Run.function (ihp hps hclosed) (ihb hbs)
  rw [hspan, hfn] at hrun
  exact .expression hrule hrun hx

theorem parametersEnd_reads : (Form.parameters []).Reads [] := by
  intro s s' ht hk
  cases ht
  exact .parametersEnd (by rw [hk]; rfl)

/-- What begins a list of parameters, or ends it, is no comma. -/
theorem kind_ne_comma_of_parameters {ps : List Symbol} (h : Derives (.parameters ps) ts)
    (ht : Takes ts s s') (hk : s'.kind = .closeParen) : s.kind ≠ .comma := by
  cases h with
  | parametersEnd =>
    cases ht
    rw [hk]
    decide
  | parameter h =>
    rw [State.kind, ht.uncons.1, h]
    decide
  | parameterComma h =>
    rw [State.kind, ht.uncons.1, h]
    decide

theorem parameter_reads {ps : List Symbol} (h : t.kind = .identifier)
    (hp : Derives (.parameters ps) ts) (ih : (Form.parameters ps).Reads ts) :
    (Form.parameters (.ofToken t :: ps)).Reads (t :: ts) := by
  intro s s' ht hk
  obtain ⟨rfl, hts⟩ := ht.uncons
  have hrest : Run .standard (.parameters ps) ((s.expected .identifier).passed .comma) s' := by
    rw [State.expected_of_kind h,
      State.passed_of_kind_ne (kind_ne_comma_of_parameters hp hts hk)]
    exact ih hts hk
  exact .parameter h hrest

theorem parameterComma_reads {c : Token} {ps : List Symbol} (h : t.kind = .identifier)
    (hc : c.kind = .comma) (ih : (Form.parameters ps).Reads ts) :
    (Form.parameters (.ofToken t :: ps)).Reads (t :: c :: ts) := by
  intro s s' ht hk
  obtain ⟨rfl, hrest⟩ := ht.uncons
  obtain ⟨rfl, hts⟩ := hrest.uncons
  have hrest : Run .standard (.parameters ps) ((s.expected .identifier).passed .comma) s' := by
    rw [State.expected_of_kind h, State.passed_of_kind hc]
    exact ih hts hk
  exact .parameter h hrest

theorem argumentsEnd_reads : (Form.arguments []).Reads [] := by
  intro s s' ht hk
  cases ht
  exact .argumentsEnd (by rw [hk]; rfl)

theorem comma_reads {es : List Expr} (h : t.kind = .comma) (ih : (Form.arguments es).Reads ts) :
    (Form.arguments es).Reads (t :: ts) := by
  intro s s' ht hk
  obtain ⟨rfl, hts⟩ := ht.uncons
  exact .comma h (ih hts hk)

/-- A token by which an expression may begin is none that ends a list or a block, and no comma. -/
theorem not_ends_of_prefixRule {k : Kind} (h : (Table.standard.prefixRule k).isSome = true) :
    endsList k = false ∧ k ≠ .comma ∧ k ≠ .elseWord ∧ k ≠ .semicolon ∧ endsBlock k = false := by
  cases k <;> first | decide | cases h

theorem not_ends_of_statementRule {k : Kind}
    (h : (Table.standard.statementRule k).isSome = true) :
    k ≠ .elseWord ∧ k ≠ .semicolon ∧ endsBlock k = false := by
  cases k <;> first | decide | cases h

/-- Behind an expression stands either what begins the rest, which does not go on with it, or what
comes after. -/
theorem ends_of_unextended (hu : Unextended us) (ht : Takes us s s')
    (hb : ∀ t ∈ us.head?, t.kind ≠ .elseWord) (he : Ends .lowest s'.kind) :
    Ends .lowest s.kind := by
  cases us with
  | nil =>
    cases ht
    exact he
  | cons u us =>
    obtain ⟨rfl, -⟩ := ht.uncons
    exact ⟨Table.continues_eq_false_iff.1 (hu _ rfl), hb _ rfl⟩

theorem argument_reads {es : List Expr} (hd : Derives (.expression .lowest e) ts)
    (ha : Derives (.arguments es) us) (hu : Unextended us)
    (ihe : (Form.expression .lowest e).Reads ts) (iha : (Form.arguments es).Reads us) :
    (Form.arguments (e :: es)).Reads (ts ++ us) := by
  intro s s' ht hk
  obtain ⟨s₁, hts, hus⟩ := ht.split
  obtain ⟨t, rest, rfl, hp⟩ := hd.begins
  have hkind : s.kind = t.kind := by rw [State.kind, hts.uncons.1]
  obtain ⟨hlist, hcomma, -⟩ := not_ends_of_prefixRule hp
  -- the next argument, a comma or the closing parenthesis ends this argument
  have hends : Ends .lowest s₁.kind := by
    refine ends_of_unextended hu hus ?_ (hk ▸ ends_closeParen)
    intro u hu'
    rcases ha.begins u hu' with hc | hp'
    · rw [hc]
      decide
    · exact (not_ends_of_prefixRule hp').2.2.1
  exact .argument (hkind ▸ hlist) (hkind ▸ hcomma) hd.isAbsent (ihe.whole hts hends) (iha hus hk)

theorem block_reads {o c : Token} {ss : List Stmt} (ho : o.kind = .openCurly)
    (hc : c.kind = .closeCurly) (ih : (Form.statements ss).Reads us) (ht : ts = o :: us ++ [c]) :
    (Form.block ⟨o, ss, .over o.span.start ts⟩).Reads ts := by
  intro s s' htake
  have hspan := htake.spanFrom_over (by simp [ht])
  rw [ht, List.cons_append] at htake
  obtain ⟨hop, -, hrest⟩ := htake.expect ho
  obtain ⟨s₁, hus, hclose⟩ := hrest.split
  obtain ⟨hclosed, rfl⟩ := hclose.expectLast hc
  have hrun := Run.block (ih hus (by rw [hclosed]; rfl))
  rwa [hspan, hop] at hrun

theorem noAlternative_reads : (Form.alternative none).Reads [] := by
  intro s s' ht hk
  cases ht
  exact .noAlternative hk

theorem alternative_reads {b : Block} (h : t.kind = .elseWord) (ih : (Form.block b).Reads ts) :
    (Form.alternative (some b)).Reads (t :: ts) := by
  intro s s' ht _
  obtain ⟨rfl, hts⟩ := ht.uncons
  exact .alternative h (ih hts)

/-- A statement is read by the rule of its first token. -/
theorem statement_of_ruled {rule : StatementRule} {st : Stmt}
    (h : (Table.standard.statementRule s.kind).getD .expression = rule)
    (hr : Run .standard (.ruled rule st) s s') : Run .standard (.statement st) s s' := by
  subst h
  exact .statement hr

theorem binding_reads {es : List Token} {l i a c : Token} (hl : l.kind = .letWord)
    (hi : i.kind = .identifier) (ha : a.kind = .assign) (hc : c.kind = .semicolon)
    (ih : (Form.expression .lowest e).Reads es) (ht : ts = l :: i :: a :: es ++ [c]) :
    (Form.statement (.binding l (.ofToken i) e (.over l.span.start ts))).Reads ts := by
  intro s s' htake
  have hspan := htake.spanFrom_over (by simp [ht])
  rw [ht, List.cons_append, List.cons_append, List.cons_append] at htake
  obtain ⟨hlet, hrest⟩ := htake.uncons
  obtain ⟨hname, -, hrest⟩ := hrest.expect hi
  obtain ⟨-, -, hrest⟩ := hrest.expect ha
  obtain ⟨s₁, hes, hclose⟩ := hrest.split
  obtain ⟨hclosed, rfl⟩ := hclose.expectLast hc
  have hkind : s.kind = .letWord := by rw [State.kind, hlet, hl]
  have hrun := Run.binding (ih.whole hes (hclosed ▸ ends_semicolon))
  rw [hspan, hlet, hname] at hrun
  exact statement_of_ruled (by rw [hkind]; rfl) hrun

theorem returningNothing_reads {r c : Token} (hr : r.kind = .returnWord)
    (hc : c.kind = .semicolon) :
    (Form.statement (.returning r .absent (.over r.span.start [r, c]))).Reads [r, c] := by
  intro s s' htake
  have hspan := htake.spanFrom_over (List.cons_ne_nil _ _)
  obtain ⟨hreturn, hrest⟩ := htake.uncons
  obtain ⟨hclosed, rfl⟩ := hrest.expectLast hc
  have hkind : s.kind = .returnWord := by rw [State.kind, hreturn, hr]
  have hrun := Run.returning (t := .standard) (.noValue hclosed)
  rw [hspan, hreturn] at hrun
  exact statement_of_ruled (by rw [hkind]; rfl) hrun

theorem returning_reads {es : List Token} {r c : Token} (hr : r.kind = .returnWord)
    (hc : c.kind = .semicolon) (hd : Derives (.expression .lowest e) es)
    (ih : (Form.expression .lowest e).Reads es) (ht : ts = r :: es ++ [c]) :
    (Form.statement (.returning r e (.over r.span.start ts))).Reads ts := by
  intro s s' htake
  have hspan := htake.spanFrom_over (by simp [ht])
  rw [ht, List.cons_append] at htake
  obtain ⟨hreturn, hrest⟩ := htake.uncons
  obtain ⟨s₁, hes, hclose⟩ := hrest.split
  obtain ⟨hclosed, rfl⟩ := hclose.expectLast hc
  have hkind : s.kind = .returnWord := by rw [State.kind, hreturn, hr]
  have hbegins : s.advance.kind ≠ .semicolon := by
    obtain ⟨t, rest, rfl, hp⟩ := hd.begins
    rw [State.kind, hes.uncons.1]
    exact (not_ends_of_prefixRule hp).2.2.2.1
  have hrun := Run.returning (.value hbegins (ih.whole hes (hclosed ▸ ends_semicolon)))
  rw [hspan, hreturn] at hrun
  exact statement_of_ruled (by rw [hkind]; rfl) hrun

/-- A statement that begins as an expression does is read as one. -/
theorem statementRule_of_expression (hd : Derives (.expression .lowest e) (t :: ts))
    (hs : s.current = t) :
    (Table.standard.statementRule s.kind).getD .expression = .expression := by
  obtain ⟨u, us, hu, hp⟩ := hd.begins
  obtain ⟨rfl, rfl⟩ := List.cons.inj hu
  rw [State.kind, hs, Table.standard_statementRule_eq_none hp]
  rfl

theorem ended_reads {es : List Token} {c : Token} (hc : c.kind = .semicolon)
    (hd : Derives (.expression .lowest e) (t :: es))
    (ih : (Form.expression .lowest e).Reads (t :: es)) (ht : ts = t :: es ++ [c]) :
    (Form.statement (.expression t e (.over t.span.start ts))).Reads ts := by
  intro s s' htake
  have hspan := htake.spanFrom_over (by simp [ht])
  rw [ht] at htake
  obtain ⟨s₁, hes, hclose⟩ := htake.split
  obtain ⟨hcl, rfl⟩ := hclose.eq_advance
  have hfirst : s.current = t := hes.uncons.1
  have hclosed : s₁.kind = .semicolon := by rw [State.kind, hcl, hc]
  have hrun := Run.bare (ih.whole hes (hclosed ▸ ends_semicolon))
  rw [State.passed_of_kind hclosed, hspan, hfirst] at hrun
  exact statement_of_ruled (statementRule_of_expression hd hfirst) hrun

theorem statementsEnd_reads : (Form.statements []).Reads [] := by
  intro s s' ht hk
  cases ht
  exact .statementsEnd hk

/-- Where a statement begins, a block does not end. -/
theorem endsBlock_of_begins {k : Kind}
    (h : (Table.standard.statementRule k).isSome = true ∨
      (Table.standard.prefixRule k).isSome = true) :
    k ≠ .elseWord ∧ k ≠ .semicolon ∧ endsBlock k = false := by
  rcases h with h | h
  · exact not_ends_of_statementRule h
  · exact (not_ends_of_prefixRule h).2.2

theorem statement_reads {st : Stmt} {ss : List Stmt} (hd : Derives (.statement st) ts)
    (ihs : (Form.statement st).Reads ts) (ihss : (Form.statements ss).Reads us) :
    (Form.statements (st :: ss)).Reads (ts ++ us) := by
  intro s s' ht hk
  obtain ⟨s₁, hts, hus⟩ := ht.split
  obtain ⟨t, rest, rfl, hp⟩ := hd.begins
  have hkind : s.kind = t.kind := by rw [State.kind, hts.uncons.1]
  exact .statements (hkind ▸ (endsBlock_of_begins hp).2.2) (ihs hts) (ihss hus hk)

/-- What ends a block ends an expression, and is no semicolon. -/
theorem ends_of_endsBlock {k : Kind} (h : endsBlock k = true) :
    Ends .lowest k ∧ k ≠ .semicolon := by
  cases k <;> first | exact ⟨⟨by decide, by decide⟩, by decide⟩ | cases h

/-- An expression that nothing goes on with is a statement by itself, with no semicolon behind it. -/
theorem bare_reads (hd : Derives (.expression .lowest e) (t :: ts))
    (ih : (Form.expression .lowest e).Reads (t :: ts)) (ht : Takes (t :: ts) s s')
    (hends : Ends .lowest s'.kind) (hopen : s'.kind ≠ .semicolon) :
    Run .standard (.statement (.expression t e (.over t.span.start (t :: ts)))) s s' := by
  have hfirst : s.current = t := ht.uncons.1
  have hrun := Run.bare (ih.whole ht hends)
  rw [State.passed_of_kind_ne hopen, ht.spanFrom_over (List.cons_ne_nil _ _), hfirst] at hrun
  exact statement_of_ruled (statementRule_of_expression hd hfirst) hrun

theorem unended_reads {ss : List Stmt} (hd : Derives (.expression .lowest e) (t :: ts))
    (hss : Derives (.statements ss) us) (hu : Unextended us)
    (ihe : (Form.expression .lowest e).Reads (t :: ts)) (ihss : (Form.statements ss).Reads us) :
    (Form.statements (.expression t e (.over t.span.start (t :: ts)) :: ss)).Reads
      (t :: ts ++ us) := by
  intro s s' ht hk
  obtain ⟨s₁, hts, hus⟩ := ht.split
  have hfirst : s.current = t := hts.uncons.1
  have hbegins : endsBlock s.kind = false := by
    obtain ⟨u, rest, hcons, hp⟩ := hd.begins
    obtain ⟨rfl, rfl⟩ := List.cons.inj hcons
    rw [State.kind, hfirst]
    exact (not_ends_of_prefixRule hp).2.2.2.2
  -- neither the next statement nor what ends the block goes on with the expression
  have hends : Ends .lowest s₁.kind :=
    ends_of_unextended hu hus (fun u hu' => (endsBlock_of_begins (hss.begins u hu')).1)
      (ends_of_endsBlock hk).1
  have hopen : s₁.kind ≠ .semicolon := by
    cases us with
    | nil =>
      cases hus
      exact (ends_of_endsBlock hk).2
    | cons u us =>
      rw [State.kind, hus.uncons.1]
      exact (endsBlock_of_begins (hss.begins u rfl)).2.1
  exact .statements hbegins (bare_reads hd ihe hts hends hopen) (ihss hus hk)

/-- **What is derived is read**, wherever its tokens are to come. -/
theorem Derives.reads (h : Derives f ts) : f.Reads ts := by
  induction h with
  | tighter h _ ih =>
    intro s s₁ s' power e' ht hp he hx
    exact ih ht (hp.tighter h) (he.mono (Power.le_of_lt h)) hx
  | binary ho h hl _ ht ihl ihr =>
    subst ht
    exact binary_reads ho h hl ihl ihr
  | unary ho _ ht ih =>
    subst ht
    exact unary_reads ho ih
  | call ho hc hf _ ht ihf iha =>
    subst ht
    exact call_reads ho hc hf ihf iha
  | integer h hn => exact reads_of_literal (by rw [h]; rfl) fun _ => literal_of_integer h hn
  | identifier h => exact reads_of_literal (by rw [h]; rfl) fun _ => literal_of_identifier h
  | truth h => exact reads_of_literal (by rw [h]; rfl) fun _ => literal_of_truth h
  | falsehood h => exact reads_of_literal (by rw [h]; rfl) fun _ => literal_of_falsehood h
  | @group es o c e ho hc _ ih =>
    intro s s₁ s' power e' ht _ _ hx
    have hrule : Table.standard.prefixRule s.kind = some .group := by
      rw [State.kind, ht.uncons.1, ho]
      rfl
    exact .expression hrule (.opened (group_reads ho hc ih ht)) hx
  | conditional hi ho hc _ _ _ ht ihe ihb iha => exact conditional_reads hi ho hc ihe ihb iha ht
  | function hf ho hc _ _ ht ihp ihb => exact function_reads hf ho hc ihp ihb ht
  | parametersEnd => exact parametersEnd_reads
  | parameter h hp ih => exact parameter_reads h hp ih
  | parameterComma h hc _ ih => exact parameterComma_reads h hc ih
  | argumentsEnd => exact argumentsEnd_reads
  | comma h _ ih => exact comma_reads h ih
  | argument he ha hu ihe iha => exact argument_reads he ha hu ihe iha
  | block ho hc _ ht ih => exact block_reads ho hc ih ht
  | noAlternative => exact noAlternative_reads
  | alternative h _ ih => exact alternative_reads h ih
  | binding hl hi ha hc _ ht ih => exact binding_reads hl hi ha hc ih ht
  | returningNothing hr hc ht =>
    subst ht
    exact returningNothing_reads hr hc
  | returning hr hc he ht ih => exact returning_reads hr hc he ih ht
  | blockStatement hb ih =>
    intro s s' ht
    obtain ⟨t, us, rfl, ho⟩ := hb.begins
    have hkind : s.kind = .openCurly := by rw [State.kind, ht.uncons.1, ho]
    exact statement_of_ruled (by rw [hkind]; rfl) (.ruledBlock (ih ht))
  | ended hc he ht ih => exact ended_reads hc he ih ht
  | statementsEnd => exact statementsEnd_reads
  | statement hs _ ihs ihss => exact statement_reads hs ihs ihss
  | unended he hss hu ihe ihss => exact unended_reads he hss hu ihe ihss

/-- Statements that are read without a fault up to the end of the text are the program. -/
theorem topRun_of_statements {tbl : Table} (recovery : Recovery) {ss : List Stmt}
    (h : Run tbl (.statements ss) s s') (hk : s'.kind = .eof) (hq : s'.log = s.log) :
    TopRun tbl recovery ss s s' := by
  induction ss generalizing s with
  | nil =>
    cases h with
    | statementsEnd => exact .done hk
  | cons st ss ih =>
    cases h with
    | statements hb hs hss =>
      -- without a fault in the whole there is none in the statement, so nothing is skipped
      obtain ⟨hq₁, hq₂⟩ := log_eq_of_suffix hs.log_suffix hss.log_suffix hq
      have hne : s.kind ≠ .eof := by
        intro h
        rw [h] at hb
        cases hb
      exact .next hne hs (recover_of_log hq₁) (ih hss hq₂)

/-- The statements that the tokens of a text spell are what the text is read as. -/
theorem read_of_statements {source : String} {ss : List Stmt} (recovery : Recovery)
    (h : Derives (.statements ss) (Scanner.ofString source).drain.ahead) :
    read source recovery =
      ⟨⟨ss, ⟨0, (Scanner.ofString source).drain.final.span.stop⟩⟩, []⟩ := by
  obtain ⟨s', ht, hs'⟩ := Takes.exists_of_ahead
    (s := .start (Scanner.ofString source).drain) (List.append_nil _).symm
  have hcurrent : s'.current = (Scanner.ofString source).drain.final := ht.current_of_nil hs'
  have hkind : s'.kind = .eof := by rw [State.kind, hcurrent]; rfl
  have hrun := topRun_of_statements recovery (h.reads ht (by rw [hkind]; rfl)) hkind ht.log
  rw [read_eq_of_run source recovery hrun, hcurrent, State.diagnostics, ht.log]
  rfl

/-- **Completeness of reading.** A text whose tokens spell a program is read as that program, without
a fault, whatever is done after faults. -/
theorem read_of_derivedFrom {source : String} {p : Program}
    (h : p.DerivedFrom (tokenize source)) (recovery : Recovery) :
    read source recovery = ⟨p, []⟩ := by
  obtain ⟨us, stop, htokens, -, hd, hspan⟩ := h
  obtain ⟨rfl, hstop⟩ := List.append_inj' htokens rfl
  obtain rfl := (List.cons.inj hstop).1
  rw [read_of_statements recovery hd, ← hspan]

/-- The program of a product whose first factor is the negated value of a call. -/
def signedProduct : Program :=
  ⟨[.expression ⟨.dash, "-", ⟨0, 1⟩⟩
      (.binary
        (.unary ⟨.dash, "-", ⟨0, 1⟩⟩
          (.call (.symbol (.ofToken ⟨.identifier, "a", ⟨1, 2⟩⟩)) ⟨.openParen, "(", ⟨2, 3⟩⟩
            [.symbol (.ofToken ⟨.identifier, "b", ⟨3, 4⟩⟩)] ⟨1, 5⟩)
          ⟨0, 5⟩)
        ⟨.star, "*", ⟨5, 6⟩⟩ (.symbol (.ofToken ⟨.identifier, "c", ⟨6, 7⟩⟩)) ⟨0, 7⟩)
      ⟨0, 7⟩],
    ⟨0, 7⟩⟩

theorem drain_signedProduct : (Scanner.ofString "-a(b)*c").drain =
    ⟨[⟨.dash, "-", ⟨0, 1⟩⟩, ⟨.identifier, "a", ⟨1, 2⟩⟩, ⟨.openParen, "(", ⟨2, 3⟩⟩,
      ⟨.identifier, "b", ⟨3, 4⟩⟩, ⟨.closeParen, ")", ⟨4, 5⟩⟩, ⟨.star, "*", ⟨5, 6⟩⟩,
      ⟨.identifier, "c", ⟨6, 7⟩⟩], 7⟩ := by
  have hend := Scanner.drain_of_read?_none (s := ⟨7, []⟩) rfl
  have hc := Scanner.drain_cons (s := ⟨5, ['*', 'c']⟩) rfl (Scanner.drain_cons rfl hend)
  have hb := Scanner.drain_cons (s := ⟨3, ['b', ')', '*', 'c']⟩) rfl (Scanner.drain_cons rfl hc)
  have ha := Scanner.drain_cons (s := ⟨1, ['a', '(', 'b', ')', '*', 'c']⟩) rfl
    (Scanner.drain_cons rfl hb)
  exact Scanner.drain_cons rfl ha

/-- A sign holds its operand looser than the arguments behind it, and tighter than a star. -/
theorem derives_signedProduct :
    Derives (.statements signedProduct.body) (Scanner.ofString "-a(b)*c").drain.ahead := by
  rw [drain_signedProduct]
  have hargument := Derives.argument
    (.tighter (by decide) (.identifier (t := ⟨.identifier, "b", ⟨3, 4⟩⟩) rfl)) .argumentsEnd
    unextended_nil
  have hcall := Derives.call (o := ⟨.openParen, "(", ⟨2, 3⟩⟩) (c := ⟨.closeParen, ")", ⟨4, 5⟩⟩)
    rfl rfl (.identifier (t := ⟨.identifier, "a", ⟨1, 2⟩⟩) rfl) hargument rfl
  have hsign := @Derives.unary _ _ ⟨.dash, "-", ⟨0, 1⟩⟩ _ (.inl rfl) (.tighter (by decide) hcall) rfl
  have hlast : Derives (.expression .unary _) _ :=
    .tighter (by decide) (.identifier (t := ⟨.identifier, "c", ⟨6, 7⟩⟩) rfl)
  have hproduct := @Derives.binary _ _ _ .multiplicative _ ⟨.star, "*", ⟨5, 6⟩⟩ _ _ rfl (by decide)
    (.tighter (by decide) hsign) hlast rfl
  exact .unended (.tighter (by decide) hproduct) .statementsEnd unextended_nil

theorem signedProduct_derivedFrom : signedProduct.DerivedFrom (tokenize "-a(b)*c") := by
  refine ⟨_, _, rfl, rfl, derives_signedProduct, ?_⟩
  rw [drain_signedProduct]
  rfl

theorem read_signedProduct :
    signedProduct.DerivedFrom (tokenize "-a(b)*c") ∧
      read "-a(b)*c" .synchronize = ⟨signedProduct, []⟩ :=
  ⟨signedProduct_derivedFrom, read_of_derivedFrom signedProduct_derivedFrom .synchronize⟩

end Monkey

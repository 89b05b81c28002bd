import Monkey.Descent.Program

/-!
# Runs

What a reader does, as a relation: `Run t phrase s s'` says that by the table `t` the phrase is read
from the state `s` up to the state `s'`. The relation has one rule for every way in which a reader
can go on, and speaks neither of depth nor of failure, so a property of all readers is proved by one
induction on it. Main statement: a state has at most one run for a phrase (`Run.unique`).
-/

namespace Monkey.Descent

namespace State

variable (s : State)

/-- The state after the current token is taken where one of some kind should stand. -/
def expected (k : Kind) : State :=
  if s.kind = k then s.advance else (s.noteHere (.unexpected s.current k)).advance

/-- The state after the current token is taken if it is of some kind. -/
def passed (k : Kind) : State := if s.kind = k then s.advance else s

end State

/-- A part of the grammar, together with what was read for it. -/
inductive Phrase where
  | expression (power : Power) (e : Expr)
  /-- The start of an expression, by a rule. -/
  | opening (rule : PrefixRule) (e : Expr)
  | group (e : Expr)
  /-- A first operand, and the expression that it is extended to. -/
  | extension (power : Power) (left e : Expr)
  /-- One extension of a first operand, by a rule. -/
  | following (rule : InfixRule) (power : Power) (left e : Expr)
  | arguments (es : List Expr)
  | parameters (ps : List Symbol)
  | block (b : Block)
  | alternative (b : Option Block)
  | returned (e : Expr)
  /-- A statement, by a rule. -/
  | ruled (rule : StatementRule) (s : Stmt)
  | statement (s : Stmt)
  | statements (ss : List Stmt)

/-- By the rules of a table, a phrase is read from one state up to another. -/
inductive Run (t : Table) : Phrase → State → State → Prop where
  | hole {s : State} {power : Power} (h : t.prefixRule s.kind = none) :
      Run t (.expression power .absent) s
        (s.advance.note (.noOperand s.current) s.current.span.start)
  | expression {s s₁ s' : State} {power : Power} {rule : PrefixRule} {first e : Expr}
      (h : t.prefixRule s.kind = some rule) (ho : Run t (.opening rule first) s s₁)
      (he : Run t (.extension power first e) s₁ s') : Run t (.expression power e) s s'
  | literal {s s' : State} {e : Expr} (h : literal s = some (e, s')) :
      Run t (.opening .literal e) s s'
  | unary {s s' : State} {e : Expr} (he : Run t (.expression .unary e) s.advance s') :
      Run t (.opening .unary (.unary s.current e (s'.spanFrom s.current.span.start))) s s'
  | opened {s s' : State} {e : Expr} (he : Run t (.group e) s s') : Run t (.opening .group e) s s'
  | conditional {s s₁ s₂ s' : State} {e : Expr} {b : Block} {a : Option Block}
      (he : Run t (.group e) s.advance s₁) (hb : Run t (.block b) s₁ s₂)
      (ha : Run t (.alternative a) s₂ s') :
      Run t (.opening .conditional
        (.conditional s.current e b a (s'.spanFrom s.current.span.start))) s s'
  | function {s s₁ s' : State} {ps : List Symbol} {b : Block}
      (hp : Run t (.parameters ps) (s.advance.expected .openParen) s₁)
      (hb : Run t (.block b) (s₁.expected .closeParen) s') :
      Run t (.opening .function
        (.function s.current ps b (s'.spanFrom s.current.span.start))) s s'
  | group {s s₁ : State} {e : Expr}
      (he : Run t (.expression .lowest e) (s.expected .openParen) s₁) :
      Run t (.group e) s (s₁.expected .closeParen)
  | stop {s : State} {power : Power} {e : Expr} (h : t.infixAbove power s.kind = none) :
      Run t (.extension power e e) s s
  | extend {s s₁ s' : State} {power own : Power} {rule : InfixRule} {left mid e : Expr}
      (h : t.infixAbove power s.kind = some (own, rule))
      (hf : Run t (.following rule own left mid) s s₁)
      (he : Run t (.extension power mid e) s₁ s') : Run t (.extension power left e) s s'
  | binary {s s' : State} {power : Power} {left right : Expr}
      (he : Run t (.expression power right) s.advance s') :
      Run t (.following .binary power left
        (.binary left s.current right (s'.spanFrom (startOf left s.current)))) s s'
  | call {s s₁ : State} {power : Power} {left : Expr} {es : List Expr}
      (ha : Run t (.arguments es) s.advance s₁) :
      Run t (.following .call power left (.call left s.current es
        ((s₁.expected .closeParen).spanFrom (startOf left s.current)))) s (s₁.expected .closeParen)
  | argumentsEnd {s : State} (h : endsList s.kind = true) : Run t (.arguments []) s s
  | comma {s s' : State} {es : List Expr} (h : s.kind = .comma)
      (ha : Run t (.arguments es) s.advance s') : Run t (.arguments es) s s'
  | noArgument {s s₁ s' : State} {es : List Expr} (h : endsList s.kind = false)
      (hc : s.kind ≠ .comma) (he : Run t (.expression .lowest .absent) s s₁)
      (ha : Run t (.arguments es) s₁ s') : Run t (.arguments es) s s'
  | argument {s s₁ s' : State} {e : Expr} {es : List Expr} (h : endsList s.kind = false)
      (hc : s.kind ≠ .comma) (hp : e.isAbsent = false) (he : Run t (.expression .lowest e) s s₁)
      (ha : Run t (.arguments es) s₁ s') : Run t (.arguments (e :: es)) s s'
  | parametersEnd {s : State} (h : endsList s.kind = true) : Run t (.parameters []) s s
  | noParameter {s s' : State} {ps : List Symbol} (h : endsList s.kind = false)
      (hi : s.kind ≠ .identifier)
      (hp : Run t (.parameters ps) ((s.expected .identifier).passed .comma) s') :
      Run t (.parameters ps) s s'
  | parameter {s s' : State} {ps : List Symbol} (h : s.kind = .identifier)
      (hp : Run t (.parameters ps) ((s.expected .identifier).passed .comma) s') :
      Run t (.parameters (.ofToken s.current :: ps)) s s'
  | block {s s₁ : State} {ss : List Stmt}
      (hb : Run t (.statements ss) (s.expected .openCurly) s₁) :
      Run t (.block ⟨s.current, ss, (s₁.expected .closeCurly).spanFrom s.current.span.start⟩) s
        (s₁.expected .closeCurly)
  | noAlternative {s : State} (h : s.kind ≠ .elseWord) : Run t (.alternative none) s s
  | alternative {s s' : State} {b : Block} (h : s.kind = .elseWord)
      (hb : Run t (.block b) s.advance s') : Run t (.alternative (some b)) s s'
  | noValue {s : State} (h : s.kind = .semicolon) : Run t (.returned .absent) s s
  | value {s s' : State} {e : Expr} (h : s.kind ≠ .semicolon)
      (he : Run t (.expression .lowest e) s s') : Run t (.returned e) s s'
  | binding {s s₁ : State} {e : Expr}
      (he : Run t (.expression .lowest e) ((s.advance.expected .identifier).expected .assign) s₁) :
      Run t (.ruled .binding (.binding s.current (.ofToken s.advance.current) e
        ((s₁.expected .semicolon).spanFrom s.current.span.start))) s (s₁.expected .semicolon)
  | returning {s s₁ : State} {e : Expr} (he : Run t (.returned e) s.advance s₁) :
      Run t (.ruled .returning (.returning s.current e
        ((s₁.expected .semicolon).spanFrom s.current.span.start))) s (s₁.expected .semicolon)
  | ruledBlock {s s' : State} {b : Block} (hb : Run t (.block b) s s') :
      Run t (.ruled .block (.block b)) s s'
  | bare {s s₁ : State} {e : Expr} (he : Run t (.expression .lowest e) s s₁) :
      Run t (.ruled .expression (.expression s.current e
        ((s₁.passed .semicolon).spanFrom s.current.span.start))) s (s₁.passed .semicolon)
  | statement {s s' : State} {st : Stmt}
      (h : Run t (.ruled ((t.statementRule s.kind).getD .expression) st) s s') :
      Run t (.statement st) s s'
  | statementsEnd {s : State} (h : endsBlock s.kind = true) : Run t (.statements []) s s
  | statements {s s₁ s' : State} {st : Stmt} {ss : List Stmt} (h : endsBlock s.kind = false)
      (hs : Run t (.statement st) s s₁) (hss : Run t (.statements ss) s₁ s') :
      Run t (.statements (st :: ss)) s s'

/-- By the rules of a table, the statements are read from one state up to another, where the text
ends. -/
inductive TopRun (t : Table) (recovery : Recovery) : List Stmt → State → State → Prop where
  | done {s : State} (h : s.kind = .eof) : TopRun t recovery [] s s
  | next {s s₁ s₂ s' : State} {st : Stmt} {ss : List Stmt} (h : s.kind ≠ .eof)
      (hs : Run t (.statement st) s s₁) (hr : recover recovery s.log.length s₁ = some ((), s₂))
      (hss : TopRun t recovery ss s₂ s') : TopRun t recovery (st :: ss) s s'

variable {t : Table}

/-- What it means for a phrase to be the only one of its sort that is read from a state. -/
def Phrase.Unique (t : Table) : Phrase → State → State → Prop
  | .expression power e, s, s' =>
    ∀ {e₁ s₁}, Run t (.expression power e₁) s s₁ → e₁ = e ∧ s₁ = s'
  | .opening rule e, s, s' => ∀ {e₁ s₁}, Run t (.opening rule e₁) s s₁ → e₁ = e ∧ s₁ = s'
  | .group e, s, s' => ∀ {e₁ s₁}, Run t (.group e₁) s s₁ → e₁ = e ∧ s₁ = s'
  | .extension power left e, s, s' =>
    ∀ {e₁ s₁}, Run t (.extension power left e₁) s s₁ → e₁ = e ∧ s₁ = s'
  | .following rule power left e, s, s' =>
    ∀ {e₁ s₁}, Run t (.following rule power left e₁) s s₁ → e₁ = e ∧ s₁ = s'
  | .arguments es, s, s' => ∀ {es₁ s₁}, Run t (.arguments es₁) s s₁ → es₁ = es ∧ s₁ = s'
  | .parameters ps, s, s' => ∀ {ps₁ s₁}, Run t (.parameters ps₁) s s₁ → ps₁ = ps ∧ s₁ = s'
  | .block b, s, s' => ∀ {b₁ s₁}, Run t (.block b₁) s s₁ → b₁ = b ∧ s₁ = s'
  | .alternative b, s, s' => ∀ {b₁ s₁}, Run t (.alternative b₁) s s₁ → b₁ = b ∧ s₁ = s'
  | .returned e, s, s' => ∀ {e₁ s₁}, Run t (.returned e₁) s s₁ → e₁ = e ∧ s₁ = s'
  | .ruled rule st, s, s' => ∀ {st₁ s₁}, Run t (.ruled rule st₁) s s₁ → st₁ = st ∧ s₁ = s'
  | .statement st, s, s' => ∀ {st₁ s₁}, Run t (.statement st₁) s s₁ → st₁ = st ∧ s₁ = s'
  | .statements ss, s, s' => ∀ {ss₁ s₁}, Run t (.statements ss₁) s s₁ → ss₁ = ss ∧ s₁ = s'

/-- A comma does not end a list. -/
theorem endsList_comma : endsList .comma = false := rfl

theorem endsList_identifier : endsList .identifier = false := rfl

/-- **A state has at most one run for a phrase.** -/
theorem Run.unique {p : Phrase} {s s' : State} (h : Run t p s s') : p.Unique t s s' := by
  -- the rules for one phrase exclude each other by the current token, so that the other run begins
  -- with the same rule; the induction hypotheses then carry it along part by part
  induction h with
  | hole h =>
    intro e₁ s₁ h₁
    cases h₁ with
    | hole => exact ⟨rfl, rfl⟩
    | expression h' => simp [h] at h'
  | expression h _ _ iho ihe =>
    intro e₁ s₁ h₁
    cases h₁ with
    | hole h' => simp [h] at h'
    | expression h' ho' he' =>
      obtain rfl := Option.some.inj (h.symm.trans h')
      obtain ⟨rfl, rfl⟩ := iho ho'
      exact ihe he'
  | literal h =>
    intro e₁ s₁ h₁
    cases h₁ with
    | literal h' => exact Prod.mk.inj (Option.some.inj (h'.symm.trans h))
  | unary _ ih =>
    intro e₁ s₁ h₁
    cases h₁ with
    | unary he' =>
      obtain ⟨rfl, rfl⟩ := ih he'
      exact ⟨rfl, rfl⟩
  | opened _ ih =>
    intro e₁ s₁ h₁
    cases h₁ with
    | opened he' => exact ih he'
  | conditional _ _ _ ihe ihb iha =>
    intro e₁ s₁ h₁
    cases h₁ with
    | conditional he' hb' ha' =>
      obtain ⟨rfl, rfl⟩ := ihe he'
      obtain ⟨rfl, rfl⟩ := ihb hb'
      obtain ⟨rfl, rfl⟩ := iha ha'
      exact ⟨rfl, rfl⟩
  | function _ _ ihp ihb =>
    intro e₁ s₁ h₁
    cases h₁ with
    | function hp' hb' =>
      obtain ⟨rfl, rfl⟩ := ihp hp'
      obtain ⟨rfl, rfl⟩ := ihb hb'
      exact ⟨rfl, rfl⟩
  | group _ ih =>
    intro e₁ s₁ h₁
    cases h₁ with
    | group he' =>
      obtain ⟨rfl, rfl⟩ := ih he'
      exact ⟨rfl, rfl⟩
  | stop h =>
    intro e₁ s₁ h₁
    cases h₁ with
    | stop => exact ⟨rfl, rfl⟩
    | extend h' => simp [h] at h'
  | extend h _ _ ihf ihe =>
    intro e₁ s₁ h₁
    cases h₁ with
    | stop h' => simp [h] at h'
    | extend h' hf' he' =>
      obtain ⟨rfl, rfl⟩ := Prod.mk.inj (Option.some.inj (h.symm.trans h'))
      obtain ⟨rfl, rfl⟩ := ihf hf'
      exact ihe he'
  | binary _ ih =>
    intro e₁ s₁ h₁
    cases h₁ with
    | binary he' =>
      obtain ⟨rfl, rfl⟩ := ih he'
      exact ⟨rfl, rfl⟩
  | call _ ih =>
    intro e₁ s₁ h₁
    cases h₁ with
    | call ha' =>
      obtain ⟨rfl, rfl⟩ := ih ha'
      exact ⟨rfl, rfl⟩
  | argumentsEnd h =>
    intro es₁ s₁ h₁
    cases h₁ with
    | argumentsEnd => exact ⟨rfl, rfl⟩
    | comma h' => simp [h', endsList_comma] at h
    | noArgument h' => simp [h] at h'
    | argument h' => simp [h] at h'
  | comma h _ ih =>
    intro es₁ s₁ h₁
    cases h₁ with
    | argumentsEnd h' => simp [h, endsList_comma] at h'
    | comma _ ha' => exact ih ha'
    | noArgument _ hc' => exact absurd h hc'
    | argument _ hc' => exact absurd h hc'
  | noArgument h hc _ _ ihe iha =>
    intro es₁ s₁ h₁
    cases h₁ with
    | argumentsEnd h' => simp [h] at h'
    | comma h' => exact absurd h' hc
    | noArgument _ _ he' ha' =>
      obtain ⟨-, rfl⟩ := ihe he'
      exact iha ha'
    | argument _ _ hp' he' =>
      -- the two rules read the same expression, and differ in whether it is a hole
      obtain ⟨rfl, -⟩ := ihe he'
      cases hp'
  | argument h hc hp _ _ ihe iha =>
    intro es₁ s₁ h₁
    cases h₁ with
    | argumentsEnd h' => simp [h] at h'
    | comma h' => exact absurd h' hc
    | noArgument _ _ he' =>
      obtain ⟨rfl, -⟩ := ihe he'
      cases hp
    | argument _ _ _ he' ha' =>
      obtain ⟨rfl, rfl⟩ := ihe he'
      obtain ⟨rfl, rfl⟩ := iha ha'
      exact ⟨rfl, rfl⟩
  | parametersEnd h =>
    intro ps₁ s₁ h₁
    cases h₁ with
    | parametersEnd => exact ⟨rfl, rfl⟩
    | noParameter h' => simp [h] at h'
    | parameter h' => simp [h', endsList_identifier] at h
  | noParameter h hi _ ih =>
    intro ps₁ s₁ h₁
    cases h₁ with
    | parametersEnd h' => simp [h] at h'
    | noParameter _ _ hp' => exact ih hp'
    | parameter h' => exact absurd h' hi
  | parameter h _ ih =>
    intro ps₁ s₁ h₁
    cases h₁ with
    | parametersEnd h' => simp [h, endsList_identifier] at h'
    | noParameter _ hi' => exact absurd h hi'
    | parameter _ hp' =>
      obtain ⟨rfl, rfl⟩ := ih hp'
      exact ⟨rfl, rfl⟩
  | block _ ih =>
    intro b₁ s₁ h₁
    cases h₁ with
    | block hb' =>
      obtain ⟨rfl, rfl⟩ := ih hb'
      exact ⟨rfl, rfl⟩
  | noAlternative h =>
    intro b₁ s₁ h₁
    cases h₁ with
    | noAlternative => exact ⟨rfl, rfl⟩
    | alternative h' => exact absurd h' h
  | alternative h _ ih =>
    intro b₁ s₁ h₁
    cases h₁ with
    | noAlternative h' => exact absurd h h'
    | alternative _ hb' =>
      obtain ⟨rfl, rfl⟩ := ih hb'
      exact ⟨rfl, rfl⟩
  | noValue h =>
    intro e₁ s₁ h₁
    cases h₁ with
    | noValue => exact ⟨rfl, rfl⟩
    | value h' => exact absurd h h'
  | value h _ ih =>
    intro e₁ s₁ h₁
    cases h₁ with
    | noValue h' => exact absurd h' h
    | value _ he' => exact ih he'
  | binding _ ih =>
    intro st₁ s₁ h₁
    cases h₁ with
    | binding he' =>
      obtain ⟨rfl, rfl⟩ := ih he'
      exact ⟨rfl, rfl⟩
  | returning _ ih =>
    intro st₁ s₁ h₁
    cases h₁ with
    | returning he' =>
      obtain ⟨rfl, rfl⟩ := ih he'
      exact ⟨rfl, rfl⟩
  | ruledBlock _ ih =>
    intro st₁ s₁ h₁
    cases h₁ with
    | ruledBlock hb' =>
      obtain ⟨rfl, rfl⟩ := ih hb'
      exact ⟨rfl, rfl⟩
  | bare _ ih =>
    intro st₁ s₁ h₁
    cases h₁ with
    | bare he' =>
      obtain ⟨rfl, rfl⟩ := ih he'
      exact ⟨rfl, rfl⟩
  | statement _ ih =>
    intro st₁ s₁ h₁
    cases h₁ with
    | statement h' => exact ih h'
  | statementsEnd h =>
    intro ss₁ s₁ h₁
    cases h₁ with
    | statementsEnd => exact ⟨rfl, rfl⟩
    | statements h' => simp [h] at h'
  | statements h _ _ ihs ihss =>
    intro ss₁ s₁ h₁
    cases h₁ with
    | statementsEnd h' => simp [h] at h'
    | statements _ hs' hss' =>
      obtain ⟨rfl, rfl⟩ := ihs hs'
      obtain ⟨rfl, rfl⟩ := ihss hss'
      exact ⟨rfl, rfl⟩

theorem TopRun.unique {recovery : Recovery} {ss ss₁ : List Stmt} {s s' s₁ : State}
    (h : TopRun t recovery ss s s') (h₁ : TopRun t recovery ss₁ s s₁) : ss₁ = ss ∧ s₁ = s' := by
  induction h generalizing ss₁ with
  | done h =>
    cases h₁ with
    | done => exact ⟨rfl, rfl⟩
    | next h' => exact absurd h h'
  | next h hs hr _ ih =>
    cases h₁ with
    | done h' => exact absurd h' h
    | next _ hs' hr' hss' =>
      obtain ⟨rfl, rfl⟩ := hs.unique hs'
      obtain ⟨-, rfl⟩ := Prod.mk.inj (Option.some.inj (hr.symm.trans hr'))
      obtain ⟨rfl, rfl⟩ := ih hss'
      exact ⟨rfl, rfl⟩

theorem TopRun.kind_eof {recovery : Recovery} {ss : List Stmt} {s s' : State}
    (h : TopRun t recovery ss s s') : s'.kind = .eof := by
  induction h with
  | done hk => exact hk
  | next _ _ _ _ ih => exact ih

end Monkey.Descent

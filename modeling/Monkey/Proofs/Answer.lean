import Monkey.Proofs.Run
import Monkey.Reading

/-!
# What readers answer

Every answer of a reader is a run. The rules are taken one by one, for nested readers that answer
with runs (`Nested.Obeys`), and the nesting closes the circle (`nested_obeys`). Since a run is
unique and a program always has an answer, a text is read as the program `p` exactly if there is a
run for `p` (`read_run`, `read_eq_of_run`).
-/

namespace Monkey

namespace Descent

variable {α β : Type} {t : Table} {n : Nested} {s s' : State} {e left : Expr} {power : Power}

section

variable (f : α → Parse β) (g : Token → Parse β) (s : State)

@[simp] theorem take_bind : (take >>= g) s = g s.current s.advance := rfl

@[simp] theorem current_bind : (current >>= g) s = g s.current s := rfl

@[simp] theorem get_bind (f : State → Parse β) : (get >>= f) s = f s s := rfl

@[simp] theorem note_bind (cause : Cause) (position : Nat) (f : Unit → Parse β) :
    (note cause position >>= f) s = f () (s.note cause position) := rfl

@[simp] theorem spanFrom_bind (start : Nat) (f : Span → Parse β) :
    (spanFrom start >>= f) s = f (s.spanFrom start) s := rfl

theorem expect_apply (k : Kind) : expect k s = some (s.current, s.expected k) := by
  unfold State.expected
  by_cases h : s.kind = k <;> simp [expect, h]

@[simp] theorem expect_bind (k : Kind) : (expect k >>= g) s = g s.current (s.expected k) := by
  unfold State.expected
  by_cases h : s.kind = k <;> simp [bind, StateT.bind, expect, h]

@[simp] theorem takeIf_bind (k : Kind) (f : Bool → Parse β) :
    (takeIf k >>= f) s = f (s.kind = k) (s.passed k) := by
  unfold State.passed
  by_cases h : s.kind = k <;> simp [bind, StateT.bind, takeIf, h]

end

theorem map_eq_some_iff {p : Parse α} {f : α → β} {r : β × State} :
    (f <$> p) s = some r ↔ ∃ a s', p s = some (a, s') ∧ (f a, s') = r := by
  simp [Functor.map, StateT.map, bind, Option.bind_eq_some_iff]

/-- What is kept by each item holds of a whole list: the list ends at once, or an item that takes a
token stands before another list. -/
theorem collect_induction {stops : Kind → Bool} {item : Parse (Option α)}
    {P : List α → State → State → Prop} (hstop : ∀ {s}, stops s.kind = true → P [] s s)
    (hitem : ∀ {s s₁ s' x xs}, stops s.kind = false → item s = some (x, s₁) → P xs s₁ s' →
      P (x.toList ++ xs) s s')
    {xs : List α} (h : collect stops item s = some (xs, s')) : P xs s s' := by
  induction hm : s.left using Nat.strongRecOn generalizing s xs with
  | ind m ih =>
    subst hm
    rw [collect] at h
    split at h
    · next hk =>
      obtain ⟨rfl, rfl⟩ := h
      exact hstop hk
    · next hk =>
      split at h
      · cases h
      · next x s₁ hx =>
        -- the reader of the list checks that the item took a token
        split at h
        · next hlt =>
          obtain ⟨⟨rest, s₂⟩, hrest, hp⟩ := Option.map_eq_some_iff.1 h
          obtain ⟨rfl, rfl⟩ := Prod.mk.inj hp
          exact hitem (Bool.eq_false_iff.2 hk) hx (ih _ hlt hrest rfl)
        · cases h

/-- The readers answer with runs by the table. -/
structure Nested.Obeys (n : Nested) (t : Table) : Prop where
  expression : ∀ {power s e s'}, n.expression power s = some (e, s') →
    Run t (.expression power e) s s'
  statement : ∀ {s st s'}, n.statement s = some (st, s') → Run t (.statement st) s s'

theorem unary_run (hn : n.Obeys t) (h : unary n s = some (e, s')) :
    Run t (.opening .unary e) s s' := by
  rw [unary, take_bind, bind_eq_some_iff] at h
  obtain ⟨operand, s₁, h₁, h⟩ := h
  obtain ⟨rfl, rfl⟩ := h
  exact .unary (hn.expression h₁)

theorem group_run (hn : n.Obeys t) (h : group n s = some (e, s')) : Run t (.group e) s s' := by
  rw [group, expect_bind, bind_eq_some_iff] at h
  obtain ⟨inner, s₁, h₁, h⟩ := h
  rw [expect_bind] at h
  obtain ⟨rfl, rfl⟩ := h
  exact .group (hn.expression h₁)

theorem statements_run (hn : n.Obeys t) {ss : List Stmt}
    (h : collect endsBlock (some <$> n.statement) s = some (ss, s')) :
    Run t (.statements ss) s s' := by
  refine collect_induction (P := fun ss s s' => Run t (.statements ss) s s') .statementsEnd ?_ h
  intro s s₁ s' x ss hk hx hr
  obtain ⟨st, s₂, hst, hp⟩ := map_eq_some_iff.1 hx
  obtain ⟨rfl, rfl⟩ := Prod.mk.inj hp
  exact .statements hk (hn.statement hst) hr

theorem block_run (hn : n.Obeys t) {b : Block} (h : block n s = some (b, s')) :
    Run t (.block b) s s' := by
  rw [block, expect_bind, bind_eq_some_iff] at h
  obtain ⟨body, s₁, h₁, h⟩ := h
  rw [expect_bind, spanFrom_bind] at h
  obtain ⟨rfl, rfl⟩ := h
  exact .block (statements_run hn h₁)

theorem alternative_run (hn : n.Obeys t) {b : Option Block}
    (h : alternative n s = some (b, s')) : Run t (.alternative b) s s' := by
  rw [alternative, takeIf_bind] at h
  unfold State.passed at h
  by_cases hk : s.kind = .elseWord
  · simp only [hk, if_true, decide_true] at h
    obtain ⟨c, s₁, h₁, hp⟩ := map_eq_some_iff.1 h
    obtain ⟨rfl, rfl⟩ := Prod.mk.inj hp
    exact .alternative hk (block_run hn h₁)
  · simp only [hk, if_false, decide_false] at h
    obtain ⟨rfl, rfl⟩ := h
    exact .noAlternative hk

theorem conditional_run (hn : n.Obeys t) (h : conditional n s = some (e, s')) :
    Run t (.opening .conditional e) s s' := by
  rw [conditional, take_bind, bind_eq_some_iff] at h
  obtain ⟨condition, s₁, h₁, h⟩ := h
  rw [bind_eq_some_iff] at h
  obtain ⟨consequence, s₂, h₂, h⟩ := h
  rw [bind_eq_some_iff] at h
  obtain ⟨other, s₃, h₃, h⟩ := h
  obtain ⟨rfl, rfl⟩ := h
  exact .conditional (group_run hn h₁) (block_run hn h₂) (alternative_run hn h₃)

theorem parameter_apply (s : State) : parameter s =
    some (if s.kind = .identifier then some (.ofToken s.current) else none,
      (s.expected .identifier).passed .comma) := by
  rw [parameter, expect_bind, takeIf_bind]
  rfl

theorem parameters_run {ps : List Symbol} (h : collect endsList parameter s = some (ps, s')) :
    Run t (.parameters ps) s s' := by
  refine collect_induction (P := fun ps s s' => Run t (.parameters ps) s s') .parametersEnd ?_ h
  intro s s₁ s' x ps hk hx hr
  rw [parameter_apply] at hx
  obtain ⟨rfl, rfl⟩ := hx
  by_cases hi : s.kind = .identifier
  · rw [if_pos hi]
    exact .parameter hi hr
  · rw [if_neg hi]
    exact .noParameter hk hi hr

theorem function_run (hn : n.Obeys t) (h : function n s = some (e, s')) :
    Run t (.opening .function e) s s' := by
  rw [function, take_bind, expect_bind, bind_eq_some_iff] at h
  obtain ⟨parameters, s₁, h₁, h⟩ := h
  rw [expect_bind, bind_eq_some_iff] at h
  obtain ⟨body, s₂, h₂, h⟩ := h
  obtain ⟨rfl, rfl⟩ := h
  exact .function (parameters_run h₁) (block_run hn h₂)

theorem arguments_run (hn : n.Obeys t) {es : List Expr}
    (h : collect endsList (argument n) s = some (es, s')) : Run t (.arguments es) s s' := by
  refine collect_induction (P := fun es s s' => Run t (.arguments es) s s') .argumentsEnd ?_ h
  intro s s₁ s' x es hk hx hr
  rw [argument, takeIf_bind] at hx
  unfold State.passed at hx
  by_cases hc : s.kind = .comma
  · simp only [hc, if_true, decide_true] at hx
    obtain ⟨rfl, rfl⟩ := hx
    exact .comma hc hr
  · simp only [hc, if_false, decide_false] at hx
    obtain ⟨e, s₂, he, hx⟩ := bind_eq_some_iff.1 hx
    obtain ⟨rfl, rfl⟩ := Prod.mk.inj (Option.some.inj hx)
    cases hp : e.isAbsent with
    | false => exact .argument hk hc hp (hn.expression he) hr
    | true =>
      have ha : e = .absent := by cases e <;> simp_all [Expr.isAbsent]
      subst ha
      exact .noArgument hk hc (hn.expression he) hr

theorem call_run (hn : n.Obeys t) (h : call n left s = some (e, s')) :
    Run t (.following .call power left e) s s' := by
  rw [call, take_bind, bind_eq_some_iff] at h
  obtain ⟨arguments, s₁, h₁, h⟩ := h
  rw [expect_bind, spanFrom_bind] at h
  obtain ⟨rfl, rfl⟩ := h
  exact .call (arguments_run hn h₁)

theorem binary_run (hn : n.Obeys t) (h : binary n power left s = some (e, s')) :
    Run t (.following .binary power left e) s s' := by
  rw [binary, take_bind, bind_eq_some_iff] at h
  obtain ⟨right, s₁, h₁, h⟩ := h
  obtain ⟨rfl, rfl⟩ := h
  exact .binary (hn.expression h₁)

theorem opening_run (hn : n.Obeys t) {rule : PrefixRule} (h : opening n rule s = some (e, s')) :
    Run t (.opening rule e) s s' := by
  cases rule with
  | literal => exact .literal h
  | unary => exact unary_run hn h
  | group => exact .opened (group_run hn h)
  | conditional => exact conditional_run hn h
  | function => exact function_run hn h

theorem following_run (hn : n.Obeys t) {rule : InfixRule}
    (h : following n left power rule s = some (e, s')) :
    Run t (.following rule power left e) s s' := by
  cases rule with
  | binary => exact binary_run hn h
  | call => exact call_run hn h

theorem extend_run (hn : n.Obeys t) (h : extend t n power left s = some (e, s')) :
    Run t (.extension power left e) s s' := by
  induction hm : s.left using Nat.strongRecOn generalizing s left with
  | ind m ih =>
    subst hm
    rw [extend] at h
    split at h
    · next hi =>
      obtain ⟨rfl, rfl⟩ := h
      exact .stop hi
    · next own rule hi =>
      split at h
      · cases h
      · next mid s₁ hf =>
        split at h
        · next hlt => exact .extend hi (following_run hn hf) (ih _ hlt h rfl)
        · cases h

theorem expression_run (hn : n.Obeys t) (h : expression t n power s = some (e, s')) :
    Run t (.expression power e) s s' := by
  rw [expression, current_bind] at h
  cases hr : t.prefixRule s.current.kind with
  | none =>
    rw [hr] at h
    obtain ⟨rfl, rfl⟩ := h
    exact .hole hr
  | some rule =>
    rw [hr] at h
    obtain ⟨first, s₁, h₁, h⟩ := bind_eq_some_iff.1 h
    exact .expression hr (opening_run hn h₁) (extend_run hn h)

theorem binding_run (hn : n.Obeys t) {st : Stmt} (h : binding t n s = some (st, s')) :
    Run t (.ruled .binding st) s s' := by
  rw [binding, take_bind, expect_bind, expect_bind, bind_eq_some_iff] at h
  obtain ⟨value, s₁, h₁, h⟩ := h
  rw [expect_bind, spanFrom_bind] at h
  obtain ⟨rfl, rfl⟩ := h
  exact .binding (expression_run hn h₁)

theorem returned_run (hn : n.Obeys t) (h : returned t n s = some (e, s')) :
    Run t (.returned e) s s' := by
  rw [returned, current_bind] at h
  by_cases hk : s.current.kind = .semicolon
  · rw [if_pos hk] at h
    obtain ⟨rfl, rfl⟩ := h
    exact .noValue hk
  · rw [if_neg hk] at h
    exact .value hk (expression_run hn h)

theorem returning_run (hn : n.Obeys t) {st : Stmt} (h : returning t n s = some (st, s')) :
    Run t (.ruled .returning st) s s' := by
  rw [returning, take_bind, bind_eq_some_iff] at h
  obtain ⟨value, s₁, h₁, h⟩ := h
  rw [expect_bind, spanFrom_bind] at h
  obtain ⟨rfl, rfl⟩ := h
  exact .returning (returned_run hn h₁)

theorem bare_run (hn : n.Obeys t) {st : Stmt} (h : bare t n s = some (st, s')) :
    Run t (.ruled .expression st) s s' := by
  rw [bare, current_bind, bind_eq_some_iff] at h
  obtain ⟨value, s₁, h₁, h⟩ := h
  rw [takeIf_bind, spanFrom_bind] at h
  obtain ⟨rfl, rfl⟩ := h
  exact .bare (expression_run hn h₁)

theorem statementBy_run (hn : n.Obeys t) {rule : StatementRule} {st : Stmt}
    (h : statementBy t n rule s = some (st, s')) : Run t (.ruled rule st) s s' := by
  cases rule with
  | binding => exact binding_run hn h
  | returning => exact returning_run hn h
  | block =>
    obtain ⟨b, s₁, h₁, hp⟩ := map_eq_some_iff.1 h
    obtain ⟨rfl, rfl⟩ := Prod.mk.inj hp
    exact .ruledBlock (block_run hn h₁)
  | expression => exact bare_run hn h

theorem statement_run (hn : n.Obeys t) {st : Stmt} (h : statement t n s = some (st, s')) :
    Run t (.statement st) s s' := by
  rw [statement, current_bind] at h
  exact .statement (statementBy_run hn h)

/-- **What nested readers answer is a run**, however deep they are. -/
theorem nested_obeys (t : Table) (d : Nat) : (nested t d).Obeys t := by
  induction d with
  | zero =>
    constructor
    · intro power s e s' h
      cases h
    · intro s st s' h
      cases h
  | succ d ih => exact ⟨expression_run ih, statement_run ih⟩

theorem topLevel_run {recovery : Recovery} (hn : n.Obeys t) {st : Stmt}
    (h : topLevel t recovery n s = some (st, s')) :
    ∃ s₁, Run t (.statement st) s s₁ ∧ recover recovery s.log.length s₁ = some ((), s') := by
  rw [topLevel, get_bind, bind_eq_some_iff] at h
  obtain ⟨st, s₁, h₁, h⟩ := h
  obtain ⟨⟨⟩, s₂, h₂, h⟩ := bind_eq_some_iff.1 h
  obtain ⟨rfl, rfl⟩ := h
  exact ⟨s₁, statement_run hn h₁, h₂⟩

theorem collect_topRun {recovery : Recovery} (hn : n.Obeys t) {ss : List Stmt}
    (h : collect (· == .eof) (some <$> topLevel t recovery n) s = some (ss, s')) :
    TopRun t recovery ss s s' := by
  refine collect_induction (P := fun ss s s' => TopRun t recovery ss s s')
    (fun hk => .done (by simpa using hk)) ?_ h
  intro s s₁ s' x ss hk hx hr
  obtain ⟨st, s₂, hst, hp⟩ := map_eq_some_iff.1 hx
  obtain ⟨rfl, rfl⟩ := Prod.mk.inj hp
  obtain ⟨s₃, hs, hrecover⟩ := topLevel_run hn hst
  exact .next (by simpa using hk) hs hrecover hr

theorem program_run {recovery : Recovery} (hn : n.Obeys t) {p : Program}
    (h : program t recovery n s = some (p, s')) :
    TopRun t recovery p.body s s' ∧ p.span = ⟨0, s'.current.span.stop⟩ := by
  rw [program, bind_eq_some_iff] at h
  obtain ⟨body, s₁, h₁, h⟩ := h
  obtain ⟨rfl, rfl⟩ := h
  exact ⟨collect_topRun hn h₁, rfl⟩

end Descent

open Descent

variable (source : String) (recovery : Recovery)

/-- A text is read by a run from its first token to its end. -/
theorem read_run :
    ∃ s', TopRun .standard recovery (read source recovery).program.body
        (.start (Scanner.ofString source).drain) s' ∧
      (read source recovery).program.span = ⟨0, s'.current.span.stop⟩ ∧
      (read source recovery).diagnostics = s'.diagnostics := by
  have hsome := (program_reaches (s := .start (Scanner.ofString source).drain)
    Table.standard_sparesEnd recovery).isSome
  obtain ⟨⟨p, s'⟩, hp⟩ := Option.isSome_iff_exists.1 hsome
  have hread : read source recovery = ⟨p, s'.diagnostics⟩ := by simp [read, hp]
  obtain ⟨hrun, hspan⟩ := program_run (nested_obeys _ _) hp
  rw [hread]
  exact ⟨s', hrun, hspan, rfl⟩

/-- What a run reads from a text is what the text says. -/
theorem read_eq_of_run {ss : List Stmt} {s' : State}
    (h : TopRun .standard recovery ss (.start (Scanner.ofString source).drain) s') :
    read source recovery = ⟨⟨ss, ⟨0, s'.current.span.stop⟩⟩, s'.diagnostics⟩ := by
  obtain ⟨s₁, hrun, hspan, hdiag⟩ := read_run source recovery
  obtain ⟨hbody, rfl⟩ := h.unique hrun
  cases hr : read source recovery with
  | mk p ds =>
    obtain ⟨body, span⟩ := p
    rw [hr] at hbody hspan hdiag
    simp only at hbody hspan hdiag
    rw [hbody, hspan, hdiag]

end Monkey

import Monkey.Proofs.Levels
import Monkey.Proofs.Moves
import Monkey.Proofs.Tokens
import Monkey.Proofs.Yield

/-!
# Accounts

Every token that a reader passes is accounted for: it is kept in the tree, it is reported, or it is
a mark that leaves no trace (`Accounts`). That is shown of each step of a reader and from there, by
induction, of every run (`Run.passage`). Main statement: the moves that read a text (`read_moves`).
-/

namespace Monkey

/-- Whether a token of some kind may be dropped from a tree without a word. -/
def Kind.isDelimiter : Kind → Bool
  | .openParen | .closeParen | .closeCurly | .semicolon | .comma | .assign | .elseWord => true
  | _ => false

/-- By the table a token that has no place in the language calls for no rule. -/
def Table.SparesIllegal (t : Table) : Prop :=
  t.statementRule .illegal = none ∧ t.prefixRule .illegal = none ∧ t.infixRule .illegal = none

namespace Table

variable {t : Table} {k : Kind}

theorem standard_sparesIllegal : standard.SparesIllegal := ⟨rfl, rfl, rfl⟩

theorem SparesIllegal.kind_ne_of_prefixRule {rule : PrefixRule} (h : t.SparesIllegal)
    (hr : t.prefixRule k = some rule) : k ≠ .illegal := by
  rintro rfl
  rw [h.2.1] at hr
  cases hr

theorem SparesIllegal.kind_ne_of_infixRule {rule : Power × InfixRule} (h : t.SparesIllegal)
    (hr : t.infixRule k = some rule) : k ≠ .illegal := by
  rintro rfl
  rw [h.2.2] at hr
  cases hr

theorem SparesIllegal.kind_ne_of_statementRule {rule : StatementRule} (h : t.SparesIllegal)
    (hr : (t.statementRule k).getD .expression = rule) (hne : rule ≠ .expression) :
    k ≠ .illegal := by
  rintro rfl
  rw [h.1] at hr
  exact hne hr.symm

end Table

namespace Descent

/-- How moves account for the tokens that are passed, if some tokens are kept. Under a condition
`P` a token that has no place in the language is always reported. -/
structure Accounts (P : Prop) (kept : List Token) (ms : List Move) : Prop where
  sublist : kept.Sublist (ms.map Move.token)
  missing : ∀ t, .take t ∈ ms → t ∈ kept ∨ t.kind.isDelimiter = true
  illegal : P → ∀ t, .take t ∈ ms → t.kind ≠ .illegal

/-- Between two states moves were made that account for the tokens, with some tokens kept. -/
def Passage (P : Prop) (kept : List Token) (s s' : State) : Prop :=
  ∃ ms, Moves ms s s' ∧ Accounts P kept ms

variable {P : Prop} {t : Table} {ks ls : List Token} {ms ns : List Move} {s s₁ s' : State}
  {k : Kind} {c : Cause}

theorem Accounts.append (h : Accounts P ks ms) (h' : Accounts P ls ns) :
    Accounts P (ks ++ ls) (ms ++ ns) := by
  constructor
  · rw [List.map_append]
    exact h.sublist.append h'.sublist
  · intro t ht
    rcases List.mem_append.1 ht with ht | ht
    · exact (h.missing t ht).imp_left (List.mem_append_left ls)
    · exact (h'.missing t ht).imp_left (List.mem_append_right ks)
  · intro hP t ht
    rcases List.mem_append.1 ht with ht | ht
    · exact h.illegal hP t ht
    · exact h'.illegal hP t ht

theorem Accounts.report (h : ks.Sublist [c.token]) : Accounts P ks [.report c] := by
  refine ⟨h, fun t ht => ?_, fun _ t ht => ?_⟩
  all_goals simp at ht

namespace Passage

theorem nil : Passage P [] s s := by
  refine ⟨[], .nil, .slnil, fun t ht => ?_, fun _ t ht => ?_⟩
  all_goals cases ht

theorem append (h : Passage P ks s s₁) (h' : Passage P ls s₁ s') : Passage P (ks ++ ls) s s' := by
  obtain ⟨ms, hm, ha⟩ := h
  obtain ⟨ns, hn, hb⟩ := h'
  exact ⟨ms ++ ns, hm.append hn, ha.append hb⟩

/-- A token is taken and kept. -/
theorem keep (h : P → s.kind ≠ .illegal) : Passage P [s.current] s s.advance := by
  refine ⟨[.take s.current], .take s, List.Sublist.refl _, fun t ht => ?_, fun hP t ht => ?_⟩
  · exact .inl (by simpa using ht)
  · obtain rfl : t = s.current := by simpa using ht
    exact h hP

/-- A mark is taken and dropped. -/
theorem drop (h : s.kind.isDelimiter = true) : Passage P [] s s.advance := by
  refine ⟨[.take s.current], .take s, List.nil_sublist _, fun t ht => ?_, fun _ t ht => ?_⟩
  · obtain rfl : t = s.current := by simpa using ht
    exact .inr h
  · obtain rfl : t = s.current := by simpa using ht
    exact fun hk => by simp [State.kind, hk, Kind.isDelimiter] at h

/-- A token is taken with a fault, and kept or dropped. -/
theorem report (h : c.token = s.current) (hk : ks.Sublist [s.current]) :
    Passage P ks s (s.advance.note c s.current.span.start) :=
  ⟨[.report c], .report h, .report (h ▸ hk)⟩

theorem expected_of_ne (h : s.kind ≠ k) (hk : ks.Sublist [s.current]) :
    Passage P ks s (s.expected k) :=
  ⟨_, .expected_of_ne h, .report hk⟩

/-- A token that should be of some kind is kept in any case. -/
theorem expected (hk : k ≠ .illegal) : Passage P [s.current] s (s.expected k) := by
  by_cases h : s.kind = k
  · rw [State.expected_of_kind h]
    exact keep fun _ => h ▸ hk
  · exact expected_of_ne h (List.Sublist.refl _)

/-- A token that should be a mark is dropped in any case. -/
theorem expectedMark (hk : k.isDelimiter = true) : Passage P [] s (s.expected k) := by
  by_cases h : s.kind = k
  · rw [State.expected_of_kind h]
    exact drop (h ▸ hk)
  · exact expected_of_ne h (List.nil_sublist _)

theorem passedMark (hk : k.isDelimiter = true) : Passage P [] s (s.passed k) := by
  by_cases h : s.kind = k
  · rw [State.passed_of_kind h]
    exact drop (h ▸ hk)
  · rw [State.passed_of_kind_ne h]
    exact nil

end Passage

/-- The tokens that the tree of a phrase keeps; of an extension, those behind the first operand. -/
def Phrase.Keeps : Phrase → List Token → Prop
  | .expression _ e, ks | .opening _ e, ks | .group e, ks | .returned e, ks => e.tokens = ks
  | .extension _ left e, ks | .following _ _ left e, ks => e.tokens = left.tokens ++ ks
  | .arguments es, ks => Expr.tokensAll es = ks
  | .parameters ps, ks => ps.map (·.token) = ks
  | .block b, ks => b.tokens = ks
  | .alternative b, ks => (b.elim [] Block.tokens) = ks
  | .ruled _ st, ks | .statement st, ks => st.tokens = ks
  | .statements ss, ks => Stmt.tokensAll ss = ks

/-- The rule by which a phrase is read is that of the table for the current token. -/
def Phrase.Called (t : Table) (s : State) : Phrase → Prop
  | .opening rule _ => t.prefixRule s.kind = some rule
  | .following rule own _ _ => t.infixRule s.kind = some (own, rule)
  | .ruled rule _ => (t.statementRule s.kind).getD .expression = rule
  | _ => True

namespace Passage

variable {e : Expr} {st : Stmt}

/-- A literal keeps its token, and reports it too if it is a number that is too large. -/
theorem literal (h : literal s = some (e, s')) (hk : P → s.kind ≠ .illegal) :
    e.tokens = [s.current] ∧ Passage P [s.current] s s' := by
  rcases literal_cases h with ⟨n, -, -, rfl, rfl⟩ | ⟨-, -, rfl, rfl⟩ | ⟨-, rfl, rfl⟩ |
    ⟨-, rfl, rfl⟩ | ⟨-, -, -, rfl, rfl⟩
  case inr.inl => exact ⟨rfl, report rfl (List.Sublist.refl _)⟩
  all_goals exact ⟨rfl, keep hk⟩

end Passage

theorem Expr.tokens_conditional (token : Token) (c : Expr) (b : Block) (a : Option Block)
    (p : Span) : (Expr.conditional token c b a p).tokens =
      token :: (c.tokens ++ (b.tokens ++ a.elim [] Block.tokens)) := by
  cases a <;> simp [Expr.tokens]

/-- **Every run accounts for the tokens that it passes.** -/
theorem Run.passage {p : Phrase} (h : Run t p s s') (hP : P → t.SparesIllegal)
    (hc : P → p.Called t s) : ∃ ks, p.Keeps ks ∧ Passage P ks s s' := by
  induction h with
  | hole h => exact ⟨[], rfl, .report rfl (List.nil_sublist _)⟩
  | expression h _ _ iho ihe =>
    obtain ⟨ks, hks, ho⟩ := iho fun _ => h
    obtain ⟨ls, hls, he⟩ := ihe fun _ => trivial
    exact ⟨ks ++ ls, hks ▸ hls, ho.append he⟩
  | literal h => exact ⟨_, Passage.literal h fun p => (hP p).kind_ne_of_prefixRule (hc p)⟩
  | unary _ ih =>
    obtain ⟨ks, rfl, he⟩ := ih fun _ => trivial
    have hop := Passage.keep fun p => (hP p).kind_ne_of_prefixRule (hc p)
    exact ⟨_, rfl, hop.append he⟩
  | opened _ ih => exact ih fun _ => trivial
  | conditional _ _ _ ihe ihb iha =>
    obtain ⟨ks, rfl, he⟩ := ihe fun _ => trivial
    obtain ⟨ls, rfl, hb⟩ := ihb fun _ => trivial
    obtain ⟨ns, rfl, ha⟩ := iha fun _ => trivial
    have htoken := Passage.keep fun p => (hP p).kind_ne_of_prefixRule (hc p)
    exact ⟨_, Expr.tokens_conditional .., htoken.append (he.append (hb.append ha))⟩
  | function _ _ ihp ihb =>
    obtain ⟨ks, rfl, hp⟩ := ihp fun _ => trivial
    obtain ⟨ls, rfl, hb⟩ := ihb fun _ => trivial
    have htoken := Passage.keep fun p => (hP p).kind_ne_of_prefixRule (hc p)
    have hbody := (Passage.expectedMark rfl).append hb
    exact ⟨_, rfl, htoken.append ((Passage.expectedMark rfl).append (hp.append hbody))⟩
  | group _ ih =>
    obtain ⟨ks, rfl, he⟩ := ih fun _ => trivial
    refine ⟨_, ?_, (Passage.expectedMark rfl).append (he.append (.expectedMark rfl))⟩
    simp [Phrase.Keeps]
  | stop => exact ⟨[], (List.append_nil _).symm, .nil⟩
  | extend h _ _ ihf ihe =>
    obtain ⟨ks, hks, hf⟩ := ihf fun _ => (Table.infixRule_of_infixAbove h).1
    obtain ⟨ls, hls, he⟩ := ihe fun _ => trivial
    refine ⟨ks ++ ls, ?_, hf.append he⟩
    simp only [Phrase.Keeps] at hks hls ⊢
    rw [hls, hks, List.append_assoc]
  | binary _ ih =>
    obtain ⟨ks, rfl, he⟩ := ih fun _ => trivial
    have hop := Passage.keep fun p => (hP p).kind_ne_of_infixRule (hc p)
    exact ⟨_, rfl, hop.append he⟩
  | call _ ih =>
    obtain ⟨ks, rfl, ha⟩ := ih fun _ => trivial
    have htoken := Passage.keep fun p => (hP p).kind_ne_of_infixRule (hc p)
    refine ⟨_, ?_, htoken.append (ha.append (.expectedMark rfl))⟩
    simp [Phrase.Keeps, Expr.tokens]
  | argumentsEnd => exact ⟨[], rfl, .nil⟩
  | comma h _ ih =>
    obtain ⟨ks, hks, ha⟩ := ih fun _ => trivial
    exact ⟨ks, hks, (Passage.drop (h ▸ rfl)).append ha⟩
  | noArgument _ _ _ _ ihe iha =>
    obtain ⟨ks, rfl, he⟩ := ihe fun _ => trivial
    obtain ⟨ls, hls, ha⟩ := iha fun _ => trivial
    exact ⟨ls, hls, he.append ha⟩
  | argument _ _ _ _ _ ihe iha =>
    obtain ⟨ks, rfl, he⟩ := ihe fun _ => trivial
    obtain ⟨ls, rfl, ha⟩ := iha fun _ => trivial
    exact ⟨_, rfl, he.append ha⟩
  | parametersEnd => exact ⟨[], rfl, .nil⟩
  | noParameter _ hi _ ih =>
    obtain ⟨ks, hks, hp⟩ := ih fun _ => trivial
    have hrest := (Passage.passedMark rfl).append hp
    exact ⟨ks, hks, (Passage.expected_of_ne hi (List.nil_sublist _)).append hrest⟩
  | parameter _ _ ih =>
    obtain ⟨ks, rfl, hp⟩ := ih fun _ => trivial
    have hrest := (Passage.passedMark rfl).append hp
    exact ⟨_, rfl, (Passage.expected (by decide)).append hrest⟩
  | block _ ih =>
    obtain ⟨ks, rfl, hb⟩ := ih fun _ => trivial
    refine ⟨_, ?_, (Passage.expected (by decide)).append (hb.append (.expectedMark rfl))⟩
    simp [Phrase.Keeps, Block.tokens]
  | noAlternative => exact ⟨[], rfl, .nil⟩
  | alternative h _ ih =>
    obtain ⟨ks, rfl, hb⟩ := ih fun _ => trivial
    exact ⟨_, rfl, (Passage.drop (h ▸ rfl)).append hb⟩
  | noValue => exact ⟨[], rfl, .nil⟩
  | value _ _ ih => exact ih fun _ => trivial
  | binding _ ih =>
    obtain ⟨ks, rfl, he⟩ := ih fun _ => trivial
    have htoken := Passage.keep fun p => (hP p).kind_ne_of_statementRule (hc p) (by decide)
    have hname := htoken.append (Passage.expected (k := .identifier) (by decide))
    refine ⟨_, ?_, (hname.append (.expectedMark rfl)).append (he.append (.expectedMark rfl))⟩
    simp [Phrase.Keeps, Stmt.tokens, Symbol.ofToken]
  | returning _ ih =>
    obtain ⟨ks, rfl, he⟩ := ih fun _ => trivial
    have htoken := Passage.keep fun p => (hP p).kind_ne_of_statementRule (hc p) (by decide)
    refine ⟨_, ?_, htoken.append (he.append (.expectedMark rfl))⟩
    simp [Phrase.Keeps, Stmt.tokens]
  | ruledBlock _ ih => exact ih fun _ => trivial
  | bare _ ih =>
    obtain ⟨ks, rfl, he⟩ := ih fun _ => trivial
    refine ⟨_, ?_, he.append (.passedMark rfl)⟩
    simp [Phrase.Keeps, Stmt.tokens]
  | statement _ ih => exact ih fun _ => rfl
  | statementsEnd => exact ⟨[], rfl, .nil⟩
  | statements _ _ _ ihs ihss =>
    obtain ⟨ks, rfl, hs⟩ := ihs fun _ => trivial
    obtain ⟨ls, rfl, hss⟩ := ihss fun _ => trivial
    exact ⟨_, rfl, hs.append hss⟩

/-- What is skipped behind a statement is moves, and nothing is skipped if reading just goes on. -/
theorem recover_moves {recovery : Recovery} {before : Nat}
    (h : recover recovery before s = some ((), s')) :
    ∃ ms, Moves ms s s' ∧ (recovery = .lenient → ms = []) := by
  cases recovery with
  | lenient =>
    rw [recover, get_bind, if_neg (by simp)] at h
    obtain ⟨-, rfl⟩ := h
    exact ⟨[], .nil, fun _ => rfl⟩
  | synchronize =>
    obtain ⟨ts, ht⟩ := recover_takes h
    exact ⟨_, .of_takes ht, fun h => by cases h⟩

/-- Statements are read in moves, and what they keep is passed. If reading just goes on after
faults, all that is passed is accounted for. -/
theorem TopRun.moves {recovery : Recovery} {ss : List Stmt} (h : TopRun t recovery ss s s')
    (hP : P → t.SparesIllegal) : ∃ ms, Moves ms s s' ∧
      (Stmt.tokensAll ss).Sublist (ms.map Move.token) ∧
      (recovery = .lenient → Accounts P (Stmt.tokensAll ss) ms) := by
  induction h with
  | done =>
    obtain ⟨ms, hm, ha⟩ := Passage.nil (P := P)
    exact ⟨ms, hm, ha.sublist, fun _ => ha⟩
  | next _ hs hr _ ih =>
    obtain ⟨ks, rfl, ms, hm, ha⟩ := hs.passage hP fun _ => trivial
    obtain ⟨us, hu, hnil⟩ := recover_moves hr
    obtain ⟨ns, hn, hsub, hb⟩ := ih
    refine ⟨ms ++ (us ++ ns), hm.append (hu.append hn), ?_, fun hl => ?_⟩
    · rw [List.map_append, List.map_append]
      exact ha.sublist.append (hsub.trans (List.sublist_append_right _ _))
    · rw [hnil hl, List.nil_append]
      exact ha.append (hb hl)

end Descent

open Descent

/-- **The moves that read a text** pass all its tokens, and the end of the text as often as it is
met. They note all faults, and what the program keeps is passed. If reading just goes on after
faults, all that is passed is accounted for. -/
theorem read_moves (source : String) (recovery : Recovery) : ∃ ms n,
    ms.map Move.token = (Scanner.ofString source).drain.ahead ++
        List.replicate n (Scanner.ofString source).drain.final ∧
      (read source recovery).diagnostics = ms.flatMap Move.diagnostics ∧
      (Stmt.tokensAll (read source recovery).program.body).Sublist (ms.map Move.token) ∧
      (recovery = .lenient →
        Accounts True (Stmt.tokensAll (read source recovery).program.body) ms) := by
  obtain ⟨s', hrun, -, hdiag⟩ := read_run source recovery
  obtain ⟨ms, hm, hsub, hacc⟩ := hrun.moves (P := True) fun _ => Table.standard_sparesIllegal
  obtain ⟨ts, n, htokens, htakes, -⟩ := hm.takes
  have hahead : (Scanner.ofString source).drain.ahead = ts ++ s'.stream.ahead := htakes.ahead
  -- the text is read up to its end, and no other token says that it is the end
  have hnil : s'.stream.ahead = [] := by
    apply State.ahead_eq_nil hrun.kind_eof
    intro u hu
    exact Scanner.kind_ne_eof_of_mem_drain (hahead ▸ List.mem_append_right ts hu)
  rw [hnil, List.append_nil] at hahead
  refine ⟨ms, n, ?_, ?_, hsub, hacc⟩
  · rw [htokens, hahead]
    rfl
  · rw [hdiag, hm.diagnostics]
    rfl

end Monkey

import Mathlib.Order.MinMax
import Monkey.Proofs.Places
import Monkey.Proofs.Tiling

/-!
# Displacement

Places steer nothing. If all offsets in the tokens to come are displaced by the same map, and that
map keeps their order, a reader goes the same way, and the offsets in what it reads and notes are
displaced like those of the tokens (`Run.displaced`, `TopRun.displaced`). So a text can be moved, or
laid out anew, and is still read as the same tree (`read_displaced`).
-/

namespace Monkey

/-- A span with its offsets displaced. -/
def Span.displace (f : Nat → Nat) (s : Span) : Span := ⟨f s.start, f s.stop⟩

/-- A cause with the span of its token changed. -/
def Cause.mapSpan (f : Span → Span) : Cause → Cause
  | .noOperand t => .noOperand (t.mapSpan f)
  | .unexpected t k => .unexpected (t.mapSpan f) k
  | .overflow t => .overflow (t.mapSpan f)

/-- A diagnostic with its offsets displaced. -/
def Diagnostic.displace (f : Nat → Nat) (d : Diagnostic) : Diagnostic :=
  ⟨d.cause.mapSpan (.displace f), f d.position⟩

section

variable (f : Span → Span) (e : Expr)

theorem Expr.span?_mapSpan : (e.mapSpan f).span? = e.span?.map f := by
  cases e with
  | conditional _ _ _ a _ => cases a <;> rfl
  | _ => rfl

theorem Expr.isAbsent_mapSpan : (e.mapSpan f).isAbsent = e.isAbsent := by
  cases e with
  | conditional _ _ _ a _ => cases a <;> rfl
  | _ => rfl

theorem Expr.mapSpan_conditional (t : Token) (c : Expr) (b : Block) (a : Option Block) (p : Span) :
    (Expr.conditional t c b a p).mapSpan f =
      .conditional (t.mapSpan f) (c.mapSpan f) (b.mapSpan f) (a.map (Block.mapSpan f)) (f p) := by
  cases a <;> rfl

end

namespace Descent

/-- Where a node starts is displaced with its first operand and its token. -/
theorem startOf_displace (f : Nat → Nat) (e : Expr) (t : Token) :
    startOf (e.mapSpan (.displace f)) (t.mapSpan (.displace f)) = f (startOf e t) := by
  rw [startOf, startOf, Expr.span?_mapSpan]
  cases e.span? <;> rfl

/-- A phrase with all its spans changed. -/
def Phrase.mapSpan (f : Span → Span) : Phrase → Phrase
  | .expression power e => .expression power (e.mapSpan f)
  | .opening rule e => .opening rule (e.mapSpan f)
  | .group e => .group (e.mapSpan f)
  | .extension power left e => .extension power (left.mapSpan f) (e.mapSpan f)
  | .following rule power left e => .following rule power (left.mapSpan f) (e.mapSpan f)
  | .arguments es => .arguments (Expr.mapSpanAll f es)
  | .parameters ps => .parameters (ps.map (Symbol.mapSpan f))
  | .block b => .block (b.mapSpan f)
  | .alternative b => .alternative (b.map (Block.mapSpan f))
  | .returned e => .returned (e.mapSpan f)
  | .ruled rule s => .ruled rule (s.mapSpan f)
  | .statement s => .statement (s.mapSpan f)
  | .statements ss => .statements (Stmt.mapSpanAll f ss)

/-- One state shows what another one shows, with all offsets displaced. Where nothing has been taken
in the one, what was taken last in the other has to end in front of all that is displaced. -/
structure State.Displaced (f : Nat → Nat) (s r : State) : Prop where
  ahead : r.stream.ahead = s.stream.ahead.map (Token.mapSpan (.displace f))
  final : r.stream.final = s.stream.final.mapSpan (.displace f)
  log : r.log = s.log.map (Diagnostic.displace f)
  last : r.last = s.last.map (Token.mapSpan (.displace f)) ∨ s.last = none ∧ r.lastStop ≤ f 0

variable {t : Table} {f : Nat → Nat} {s s' r r' : State} {k : Kind} {c : Cause} {e : Expr}

namespace State.Displaced

theorem current (h : s.Displaced f r) : r.current = s.current.mapSpan (.displace f) := by
  unfold State.current TokenStream.head
  rw [h.ahead, h.final]
  cases s.stream.ahead <;> rfl

theorem kind (h : s.Displaced f r) : r.kind = s.kind := by
  unfold State.kind
  rw [h.current]
  rfl

theorem start (h : s.Displaced f r) : r.current.span.start = f s.current.span.start := by
  rw [h.current]
  rfl

theorem advance (h : s.Displaced f r) : s.advance.Displaced f r.advance := by
  have hahead := h.ahead
  cases ha : s.stream.ahead with
  | nil =>
    rw [ha, List.map_nil] at hahead
    have hs : s.advance = s := by
      unfold State.advance
      rw [ha]
    have hr : r.advance = r := by
      unfold State.advance
      rw [hahead]
    rw [hs, hr]
    exact h
  | cons t ts =>
    rw [ha, List.map_cons] at hahead
    rw [State.advance_of_cons ha, State.advance_of_cons hahead]
    exact ⟨rfl, h.final, h.log, .inl rfl⟩

theorem note (h : s.Displaced f r) (c : Cause) (position : Nat) :
    (s.note c position).Displaced f (r.note (c.mapSpan (.displace f)) (f position)) := by
  refine ⟨h.ahead, h.final, ?_, h.last⟩
  rw [State.log_note, State.log_note, h.log]
  rfl

theorem expected (h : s.Displaced f r) (k : Kind) : (s.expected k).Displaced f (r.expected k) := by
  unfold State.expected
  rw [h.kind]
  split
  · exact h.advance
  · have hnote := (h.note (.unexpected s.current k) s.current.span.start).advance
    unfold State.noteHere
    rw [h.start, h.current]
    exact hnote

theorem passed (h : s.Displaced f r) (k : Kind) : (s.passed k).Displaced f (r.passed k) := by
  unfold State.passed
  rw [h.kind]
  split
  · exact h.advance
  · exact h

/-- A token is taken and reported in both states. -/
theorem report (h : s.Displaced f r) (c : Cause) :
    (s.advance.note c s.current.span.start).Displaced f
      (r.advance.note (c.mapSpan (.displace f)) r.current.span.start) := by
  rw [h.start]
  exact h.advance.note c s.current.span.start

theorem spanFrom (hf : Monotone f) (h : s.Displaced f r) (start : Nat) :
    r.spanFrom (f start) = (s.spanFrom start).displace f := by
  have hstop : max r.lastStop (f start) = f (max s.lastStop start) := by
    rcases h.last with hlast | ⟨hnone, hle⟩
    · unfold State.lastStop
      rw [hlast]
      cases s.last with
      | none =>
        -- nothing has been taken in either state, so both spans are empty
        simp
      | some u => exact hf.map_max.symm
    · have hzero : s.lastStop = 0 := by
        unfold State.lastStop
        rw [hnone]
        rfl
      have hstart : f 0 ≤ f start := hf (Nat.zero_le start)
      rw [hzero, Nat.zero_max]
      exact Nat.max_eq_right (Nat.le_trans hle hstart)
  unfold State.spanFrom Span.displace
  rw [hstop]

/-- The span of a node that begins with the current token is displaced with that token. -/
theorem spanFrom_current (hf : Monotone f) (h : s.Displaced f r) (h' : s'.Displaced f r') :
    r'.spanFrom r.current.span.start = (s'.spanFrom s.current.span.start).displace f := by
  rw [h.start]
  exact h'.spanFrom hf _

/-- The span of a node with a first operand in front of its token is displaced with both. -/
theorem spanFrom_startOf (hf : Monotone f) (h : s.Displaced f r) (h' : s'.Displaced f r')
    (left : Expr) : r'.spanFrom (startOf (left.mapSpan (.displace f)) r.current) =
      (s'.spanFrom (startOf left s.current)).displace f := by
  rw [h.current, startOf_displace]
  exact h'.spanFrom hf _

theorem literal (h : s.Displaced f r) (hl : literal s = some (e, s')) :
    ∃ r', literal r = some (e.mapSpan (.displace f), r') ∧ s'.Displaced f r' := by
  have hkind : r.current.kind = s.current.kind := h.kind
  have htext : r.current.text = s.current.text := by
    rw [h.current]
    rfl
  rw [Descent.literal, take_bind] at hl
  simp only [Descent.literal, take_bind, hkind, htext]
  cases hk : s.current.kind with
  | integer =>
    rw [hk] at hl
    cases hn : Lexeme.number? s.current.text with
    | none =>
      simp only [hn] at hl
      obtain ⟨rfl, rfl⟩ := hl
      have hreport := h.report (.overflow s.current)
      rw [Cause.mapSpan, ← h.current] at hreport
      refine ⟨_, ?_, hreport⟩
      rw [Expr.mapSpan, h.current]
      rfl
    | some n =>
      simp only [hn] at hl
      obtain ⟨rfl, rfl⟩ := hl
      refine ⟨r.advance, ?_, h.advance⟩
      rw [Expr.mapSpan, h.current]
      rfl
  | _ =>
    rw [hk] at hl
    obtain ⟨rfl, rfl⟩ := hl
    refine ⟨r.advance, ?_, h.advance⟩
    rw [Expr.mapSpan, h.current]
    rfl

end State.Displaced

/-- **A run is displaced with its tokens.** -/
theorem Run.displaced (hf : Monotone f) {p : Phrase} (h : Run t p s s') (hr : s.Displaced f r) :
    ∃ r', Run t (p.mapSpan (.displace f)) r r' ∧ s'.Displaced f r' := by
  -- the other state calls for the same rule, since it shows a token of the same kind
  induction h generalizing r with
  | @hole s power h =>
    have hrule : t.prefixRule r.kind = none := hr.kind ▸ h
    have hreport := hr.report (.noOperand s.current)
    rw [Cause.mapSpan, ← hr.current] at hreport
    exact ⟨_, .hole hrule, hreport⟩
  | expression h _ _ iho ihe =>
    obtain ⟨r₁, ho, h₁⟩ := iho hr
    obtain ⟨r', he, h'⟩ := ihe h₁
    exact ⟨r', .expression (hr.kind ▸ h) ho he, h'⟩
  | literal h =>
    obtain ⟨r', hl, h'⟩ := hr.literal h
    exact ⟨r', .literal hl, h'⟩
  | unary _ ih =>
    obtain ⟨r', he, h'⟩ := ih hr.advance
    have hrun := Run.unary he
    rw [hr.spanFrom_current hf h', hr.current] at hrun
    exact ⟨r', hrun, h'⟩
  | opened _ ih =>
    obtain ⟨r', he, h'⟩ := ih hr
    exact ⟨r', .opened he, h'⟩
  | conditional _ _ _ ihe ihb iha =>
    obtain ⟨r₁, he, h₁⟩ := ihe hr.advance
    obtain ⟨r₂, hb, h₂⟩ := ihb h₁
    obtain ⟨r', ha, h'⟩ := iha h₂
    have hrun := Run.conditional he hb ha
    rw [hr.spanFrom_current hf h', hr.current] at hrun
    refine ⟨r', ?_, h'⟩
    rw [Phrase.mapSpan, Expr.mapSpan_conditional]
    exact hrun
  | function _ _ ihp ihb =>
    obtain ⟨r₁, hp, h₁⟩ := ihp (hr.advance.expected .openParen)
    obtain ⟨r', hb, h'⟩ := ihb (h₁.expected .closeParen)
    have hrun := Run.function hp hb
    rw [hr.spanFrom_current hf h', hr.current] at hrun
    exact ⟨r', hrun, h'⟩
  | group _ ih =>
    obtain ⟨r₁, he, h₁⟩ := ih (hr.expected .openParen)
    exact ⟨_, .group he, h₁.expected .closeParen⟩
  | stop h => exact ⟨r, .stop (hr.kind ▸ h), hr⟩
  | extend h _ _ ihf ihe =>
    obtain ⟨r₁, hmid, h₁⟩ := ihf hr
    obtain ⟨r', he, h'⟩ := ihe h₁
    exact ⟨r', .extend (hr.kind ▸ h) hmid he, h'⟩
  | @binary s s' power left right _ ih =>
    obtain ⟨r', he, h'⟩ := ih hr.advance
    have hrun : Run t (.following .binary power (left.mapSpan (.displace f)) _) r r' := .binary he
    rw [hr.spanFrom_startOf hf h', hr.current] at hrun
    exact ⟨r', hrun, h'⟩
  | @call s s₁ power left es _ ih =>
    obtain ⟨r₁, ha, h₁⟩ := ih hr.advance
    have h' := h₁.expected .closeParen
    have hrun : Run t (.following .call power (left.mapSpan (.displace f)) _) r _ := .call ha
    rw [hr.spanFrom_startOf hf h', hr.current] at hrun
    exact ⟨_, hrun, h'⟩
  | argumentsEnd h => exact ⟨r, .argumentsEnd (hr.kind ▸ h), hr⟩
  | comma h _ ih =>
    obtain ⟨r', ha, h'⟩ := ih hr.advance
    exact ⟨r', .comma (hr.kind ▸ h) ha, h'⟩
  | noArgument h hc _ _ ihe iha =>
    obtain ⟨r₁, he, h₁⟩ := ihe hr
    obtain ⟨r', ha, h'⟩ := iha h₁
    exact ⟨r', .noArgument (hr.kind ▸ h) (hr.kind ▸ hc) he ha, h'⟩
  | argument h hc hp _ _ ihe iha =>
    obtain ⟨r₁, he, h₁⟩ := ihe hr
    obtain ⟨r', ha, h'⟩ := iha h₁
    rw [← Expr.isAbsent_mapSpan (.displace f)] at hp
    exact ⟨r', .argument (hr.kind ▸ h) (hr.kind ▸ hc) hp he ha, h'⟩
  | parametersEnd h => exact ⟨r, .parametersEnd (hr.kind ▸ h), hr⟩
  | noParameter h hi _ ih =>
    obtain ⟨r', hp, h'⟩ := ih ((hr.expected .identifier).passed .comma)
    exact ⟨r', .noParameter (hr.kind ▸ h) (hr.kind ▸ hi) hp, h'⟩
  | parameter h _ ih =>
    obtain ⟨r', hp, h'⟩ := ih ((hr.expected .identifier).passed .comma)
    have hrun := Run.parameter (hr.kind ▸ h) hp
    rw [hr.current] at hrun
    exact ⟨r', hrun, h'⟩
  | block _ ih =>
    obtain ⟨r₁, hb, h₁⟩ := ih (hr.expected .openCurly)
    have h' := h₁.expected .closeCurly
    have hrun := Run.block hb
    rw [hr.spanFrom_current hf h', hr.current] at hrun
    exact ⟨_, hrun, h'⟩
  | noAlternative h => exact ⟨r, .noAlternative (hr.kind ▸ h), hr⟩
  | alternative h _ ih =>
    obtain ⟨r', hb, h'⟩ := ih hr.advance
    exact ⟨r', .alternative (hr.kind ▸ h) hb, h'⟩
  | noValue h => exact ⟨r, .noValue (hr.kind ▸ h), hr⟩
  | value h _ ih =>
    obtain ⟨r', he, h'⟩ := ih hr
    exact ⟨r', .value (hr.kind ▸ h) he, h'⟩
  | binding _ ih =>
    have hname := hr.advance
    obtain ⟨r₁, he, h₁⟩ := ih ((hname.expected .identifier).expected .assign)
    have h' := h₁.expected .semicolon
    have hrun := Run.binding he
    rw [hr.spanFrom_current hf h', hr.current, hname.current] at hrun
    exact ⟨_, hrun, h'⟩
  | returning _ ih =>
    obtain ⟨r₁, he, h₁⟩ := ih hr.advance
    have h' := h₁.expected .semicolon
    have hrun := Run.returning he
    rw [hr.spanFrom_current hf h', hr.current] at hrun
    exact ⟨_, hrun, h'⟩
  | ruledBlock _ ih =>
    obtain ⟨r', hb, h'⟩ := ih hr
    exact ⟨r', .ruledBlock hb, h'⟩
  | bare _ ih =>
    obtain ⟨r₁, he, h₁⟩ := ih hr
    have h' := h₁.passed .semicolon
    have hrun := Run.bare he
    rw [hr.spanFrom_current hf h', hr.current] at hrun
    exact ⟨_, hrun, h'⟩
  | statement _ ih =>
    obtain ⟨r', hs, h'⟩ := ih hr
    rw [← hr.kind] at hs
    exact ⟨r', .statement hs, h'⟩
  | statementsEnd h => exact ⟨r, .statementsEnd (hr.kind ▸ h), hr⟩
  | statements h _ _ ihs ihss =>
    obtain ⟨r₁, hs, h₁⟩ := ihs hr
    obtain ⟨r', hss, h'⟩ := ihss h₁
    exact ⟨r', .statements (hr.kind ▸ h) hs hss, h'⟩

/-- Tokens that are taken from one state can be taken from the other. -/
theorem Takes.displaced {ts : List Token} (h : Takes ts s s') (hr : s.Displaced f r)
    (hr' : Takes (ts.map (Token.mapSpan (.displace f))) r r') : s'.Displaced f r' := by
  induction h generalizing r with
  | nil =>
    cases hr'
    exact hr
  | cons _ _ ih =>
    obtain ⟨-, hrest⟩ := hr'.uncons
    exact ih hr.advance hrest

theorem throughEnd_displace (f : Nat → Nat) (ts : List Token) :
    throughEnd (ts.map (Token.mapSpan (.displace f))) =
      (throughEnd ts).map (Token.mapSpan (.displace f)) := by
  induction ts with
  | nil => rfl
  | cons t ts ih =>
    have hkind : (t.mapSpan (.displace f)).kind = t.kind := rfl
    rw [List.map_cons, throughEnd, throughEnd, ih, hkind]
    split
    · rfl
    · rfl

/-- Behind a statement the tokens that are skipped are those skipped in the other state. -/
theorem recover_displaced {recovery : Recovery} {before : Nat}
    (hs : ∀ t ∈ s.stream.ahead, t.kind ≠ .eof) (hlast : s.last ≠ none)
    (h : recover recovery before s = some ((), s')) (hr : s.Displaced f r) :
    ∃ r', recover recovery before r = some ((), r') ∧ s'.Displaced f r' := by
  obtain ⟨⟨⟩, r', h', -⟩ := recover_reaches (s := r) recovery before
  refine ⟨r', h', ?_⟩
  have hends : (r.last.any fun t => endsStatement t.kind) =
      s.last.any fun t => endsStatement t.kind := by
    rcases hr.last with h | ⟨h, -⟩
    · rw [h, Option.any_map]
      rfl
    · exact absurd h hlast
  have hlog : r.log.length = s.log.length := by rw [hr.log, List.length_map]
  have hkinds : ∀ t ∈ r.stream.ahead, t.kind ≠ .eof := by
    intro t ht
    rw [hr.ahead] at ht
    obtain ⟨u, hu, rfl⟩ := List.mem_map.1 ht
    exact hs u hu
  -- what is skipped is told by the number of faults, the token taken last and those to come
  have hskipped : r.takenTo r' = (s.takenTo s').map (Token.mapSpan (.displace f)) := by
    rw [takenTo_of_recover hs h, takenTo_of_recover hkinds h', hlog, hends, hr.ahead,
      throughEnd_displace]
    split <;> rfl
  exact (takes_of_recover h).displaced hr (hskipped ▸ takes_of_recover h')

/-- **The reading of a text is displaced with its tokens.** -/
theorem TopRun.displaced (hf : Monotone f) {recovery : Recovery} {ss : List Stmt}
    (h : TopRun t recovery ss s s') (hs : ∀ t ∈ s.stream.ahead, t.kind ≠ .eof)
    (hr : s.Displaced f r) : ∃ r', TopRun t recovery (Stmt.mapSpanAll (.displace f) ss) r r' ∧
      s'.Displaced f r' := by
  induction h generalizing r with
  | done h => exact ⟨r, .done (hr.kind ▸ h), hr⟩
  | @next s s₁ s₂ s' st ss h hst hrec _ ih =>
    obtain ⟨r₁, hst', hr₁⟩ := hst.displaced hf hr
    have htaken : s.stream.ahead = s.takenTo s₁ ++ s₁.stream.ahead := hst.takes.ahead
    have hs₁ : ∀ t ∈ s₁.stream.ahead, t.kind ≠ .eof :=
      fun t ht => hs t (htaken ▸ List.mem_append_right _ ht)
    have hlast : s₁.last ≠ none := by
      have hne := hst.takenTo_ne_nil h
      have hlast : s₁.last = (s.takenTo s₁).getLast? := hst.takes.last hne
      rw [hlast]
      exact fun hnone => hne (List.getLast?_eq_none_iff.1 hnone)
    obtain ⟨r₂, hrec', hr₂⟩ := recover_displaced hs₁ hlast hrec hr₁
    have hskipped := (takes_of_recover hrec).ahead
    have hs₂ : ∀ t ∈ s₂.stream.ahead, t.kind ≠ .eof :=
      fun t ht => hs₁ t (hskipped ▸ List.mem_append_right _ ht)
    obtain ⟨r', hss, hr'⟩ := ih hs₂ hr₂
    have hbefore : r.log.length = s.log.length := by rw [hr.log, List.length_map]
    rw [← hbefore] at hrec'
    exact ⟨r', .next (hr.kind ▸ h) hst' hrec' hss, hr'⟩

end Descent

open Descent

/-- **A text is read from any state that shows its tokens displaced** as it is from its start. -/
theorem read_displaced {f : Nat → Nat} (hf : Monotone f) {source : String} {r : State}
    (hr : (State.start (Scanner.ofString source).drain).Displaced f r) (recovery : Recovery) :
    ∃ r', TopRun .standard recovery
        (Stmt.mapSpanAll (.displace f) (read source recovery).program.body) r r' ∧
      r'.diagnostics = (read source recovery).diagnostics.map (.displace f) := by
  obtain ⟨s', hrun, -, hdiagnostics⟩ := read_run source recovery
  have hkinds : ∀ t ∈ (State.start (Scanner.ofString source).drain).stream.ahead, t.kind ≠ .eof :=
    fun _ => Scanner.kind_ne_eof_of_mem_drain
  obtain ⟨r', hrun', hr'⟩ := hrun.displaced hf hkinds hr
  refine ⟨r', hrun', ?_⟩
  rw [hdiagnostics, State.diagnostics, State.diagnostics, hr'.log, List.map_reverse]

end Monkey

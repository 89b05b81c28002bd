import Monkey.Proofs.GrammarComplete
import Monkey.Proofs.Nodes
import Monkey.Proofs.Tokens

/-!
# What is read without a fault is derived

By induction on a run: if it notes no fault, the tokens that it took spell what it read
(`Run.derives`). Of an extension it is shown that the first operand, whatever its tokens were, and
the tokens taken together spell the result; the token that stands behind an expression has no power
above the level that was reached, which is what lets the next operator take it as its operand. Main
statement: a text that is read without a fault spells the program it is read as
(`derivedFrom_of_read`).
-/

namespace Monkey

open Descent

variable {ts us ls : List Token} {e left : Expr} {s s₁ s' : State} {k : Kind} {power level : Power}

/-- The tokens of a statement, and what stands behind it if nothing ends it. -/
def Stmt.ReadFrom (st : Stmt) (ts : List Token) (next : Kind) : Prop :=
  Derives (.statement st) ts ∨
    ∃ t us e, ts = t :: us ∧ st = .expression t e (.over t.span.start ts) ∧
      Derives (.expression .lowest e) ts ∧ Table.standard.power next ≤ .lowest

/-- What the tokens taken in a run spell, if it notes no fault. -/
def Descent.Phrase.Sound : Phrase → State → State → Prop
  | .expression power e, s, s' => power ≠ .call → s'.log = s.log →
      ∃ ts level, Takes ts s s' ∧ Admits power level ∧ Derives (.expression level e) ts ∧
        Table.standard.power s'.kind ≤ power
  | .opening rule e, s, s' => Table.standard.prefixRule s.kind = some rule → s'.log = s.log →
      ∃ ts level, Takes ts s s' ∧ .unary ≤ level ∧ Derives (.expression level e) ts ∧
        Table.standard.power s'.kind ≤ level
  | .group e, s, s' => s'.log = s.log →
      ∃ o es c, o.kind = .openParen ∧ c.kind = .closeParen ∧ Takes (o :: es ++ [c]) s s' ∧
        Derives (.expression .lowest e) es
  | .extension power left e, s, s' => s'.log = s.log → ∀ {ls level},
      Derives (.expression level left) ls → Admits power level →
      Table.standard.power s.kind ≤ level →
      ∃ ts level', Takes ts s s' ∧ Admits power level' ∧
        Derives (.expression level' e) (ls ++ ts) ∧ Table.standard.power s'.kind ≤ power
  | .following rule power left e, s, s' =>
      Table.standard.infixRule s.kind = some (power, rule) → s'.log = s.log → ∀ {ls level},
      Derives (.expression level left) ls → power ≤ level →
      ∃ ts, Takes ts s s' ∧ Derives (.expression power e) (ls ++ ts) ∧
        Table.standard.power s'.kind ≤ power
  | .arguments es, s, s' => s'.log = s.log → ∃ ts, Takes ts s s' ∧ Derives (.arguments es) ts
  | .parameters ps, s, s' => s'.log = s.log → ∃ ts, Takes ts s s' ∧ Derives (.parameters ps) ts
  | .block b, s, s' => s'.log = s.log → ∃ ts, Takes ts s s' ∧ Derives (.block b) ts
  | .alternative b, s, s' => s'.log = s.log → ∃ ts, Takes ts s s' ∧ Derives (.alternative b) ts
  | .returned e, s, s' => s'.log = s.log →
      e = .absent ∧ s' = s ∨ ∃ ts, Takes ts s s' ∧ Derives (.expression .lowest e) ts
  | .ruled rule st, s, s' => (Table.standard.statementRule s.kind).getD .expression = rule →
      s'.log = s.log → ∃ ts, Takes ts s s' ∧ st.ReadFrom ts s'.kind
  | .statement st, s, s' => s'.log = s.log → ∃ ts, Takes ts s s' ∧ st.ReadFrom ts s'.kind
  | .statements ss, s, s' => s'.log = s.log → ∃ ts, Takes ts s s' ∧ Derives (.statements ss) ts

/-- A token that is taken without a fault where one of some kind should stand is of that kind. -/
theorem takes_expected (hk : k ≠ .eof) (h : (s.expected k).log = s.log) :
    s.current.kind = k ∧ Takes [s.current] s (s.expected k) := by
  have hkind : s.kind = k := State.kind_of_log_expected h
  rw [State.expected_of_kind hkind]
  exact ⟨hkind, .one (hkind ▸ hk)⟩

/-- A derivation at a level is one at every looser level. -/
theorem Derives.of_le (h : Derives (.expression level e) ts) (hl : power ≤ level) :
    Derives (.expression power e) ts := by
  rcases Power.eq_or_lt_of_le hl with rfl | hlt
  · exact h
  · exact .tighter hlt h

theorem literal_sound (hr : Table.standard.prefixRule s.kind = some .literal)
    (h : literal s = some (e, s')) (hq : s'.log = s.log) :
    Derives (.expression .call e) [s.current] ∧ s' = s.advance := by
  rcases literal_cases h with ⟨n, hk, hn, rfl, rfl⟩ | ⟨-, -, -, rfl⟩ | ⟨hk, rfl, rfl⟩ |
    ⟨hk, rfl, rfl⟩ | ⟨hi, ht, hf, rfl, rfl⟩
  · -- the number is the one that the digits name, and not too large
    rw [Token.number?_text] at hn
    split at hn
    · next hle =>
      obtain rfl := Option.some.inj hn
      exact ⟨.integer hk hle, rfl⟩
    · cases hn
  · rw [State.log_note, State.log_advance] at hq
    exact absurd hq (List.cons_ne_self _ _)
  · exact ⟨.truth hk, rfl⟩
  · exact ⟨.falsehood hk, rfl⟩
  · rcases Table.standard_prefixRule_cases hr with hk | hk | hk | hk
    · exact absurd hk hi
    · exact ⟨.identifier hk, rfl⟩
    · exact absurd hk ht
    · exact absurd hk hf

theorem unary_sound (hr : Table.standard.prefixRule s.kind = some .unary)
    (hs : Takes ts s.advance s') (ha : Admits .unary level)
    (hd : Derives (.expression level e) ts) :
    Takes (s.current :: ts) s s' ∧
      Derives (.expression .unary (.unary s.current e (s'.spanFrom s.current.span.start)))
        (s.current :: ts) := by
  have ho := Table.standard_prefixRule_cases hr
  have hne : s.kind ≠ .eof := by rcases ho with h | h <;> rw [h] <;> decide
  have htake : Takes (s.current :: ts) s s' := (Takes.one hne).append hs
  rw [htake.spanFrom_over (List.cons_ne_nil _ _)]
  exact ⟨htake, .unary ho (hd.of_le ha.le) rfl⟩

/-- Where a run ends with a token that should stand there, and no fault was noted, nothing before that
token was at fault and the token is the right one. -/
theorem quiet_expected (hk : k ≠ .eof) (h : s.log <:+ s₁.log)
    (hq : (s₁.expected k).log = s.log) :
    s₁.log = s.log ∧ s₁.current.kind = k ∧ Takes [s₁.current] s₁ (s₁.expected k) := by
  obtain ⟨hq₁, hq₂⟩ := log_eq_of_suffix h (State.suffix_expected s₁ k) hq
  exact ⟨hq₁, takes_expected hk hq₂⟩

theorem group_sound (hr : Run .standard (.expression .lowest e) (s.expected .openParen) s₁)
    (ih : (Phrase.expression .lowest e).Sound (s.expected .openParen) s₁) :
    (Phrase.group e).Sound s (s₁.expected .closeParen) := by
  intro hq
  have hlog := (State.suffix_expected s .openParen).trans hr.log_suffix
  obtain ⟨hq₁, hc, hclose⟩ := quiet_expected (by decide) hlog hq
  obtain ⟨hq₂, hq₃⟩ := log_eq_of_suffix (State.suffix_expected _ _) hr.log_suffix hq₁
  obtain ⟨ho, hopen⟩ := takes_expected (by decide) hq₂
  -- between parentheses any level will do
  obtain ⟨ts, level, ht, ha, hd, -⟩ := ih (by decide) hq₃
  exact ⟨_, ts, _, ho, hc, (hopen.append ht).append hclose, hd.of_le ha.le⟩

theorem conditional_sound {s₂ : State} {b : Block} {a : Option Block}
    (hrule : Table.standard.prefixRule s.kind = some .conditional)
    (hre : Run .standard (.group e) s.advance s₁) (hrb : Run .standard (.block b) s₁ s₂)
    (hra : Run .standard (.alternative a) s₂ s') (ihe : (Phrase.group e).Sound s.advance s₁)
    (ihb : (Phrase.block b).Sound s₁ s₂) (iha : (Phrase.alternative a).Sound s₂ s')
    (hq : s'.log = s.log) :
    ∃ ts, Takes ts s s' ∧ Derives (.expression .call
      (.conditional s.current e b a (s'.spanFrom s.current.span.start))) ts := by
  have hif : s.kind = .ifWord := Table.standard_prefixRule_cases hrule
  -- faults are only added, so none of the three parts noted one
  rw [← State.log_advance s] at hq
  obtain ⟨hq₁, hqa⟩ := log_eq_of_suffix (hre.log_suffix.trans hrb.log_suffix) hra.log_suffix hq
  obtain ⟨hqe, hqb⟩ := log_eq_of_suffix hre.log_suffix hrb.log_suffix hq₁
  obtain ⟨o, cs, c, ho, hc, hte, hde⟩ := ihe hqe
  obtain ⟨bs, htb, hdb⟩ := ihb hqb
  obtain ⟨as, hta, hda⟩ := iha hqa
  have htake := (Takes.one (hif ▸ by decide)).append (hte.append (htb.append hta))
  rw [htake.spanFrom_over (List.cons_ne_nil _ _)]
  exact ⟨_, htake, .conditional hif ho hc hde hdb hda (by simp)⟩

theorem function_sound {ps : List Symbol} {b : Block}
    (hrule : Table.standard.prefixRule s.kind = some .function)
    (hrp : Run .standard (.parameters ps) (s.advance.expected .openParen) s₁)
    (hrb : Run .standard (.block b) (s₁.expected .closeParen) s')
    (ihp : (Phrase.parameters ps).Sound (s.advance.expected .openParen) s₁)
    (ihb : (Phrase.block b).Sound (s₁.expected .closeParen) s') (hq : s'.log = s.log) :
    ∃ ts, Takes ts s s' ∧ Derives (.expression .call
      (.function s.current ps b (s'.spanFrom s.current.span.start))) ts := by
  have hfn : s.kind = .fnWord := Table.standard_prefixRule_cases hrule
  rw [← State.log_advance s] at hq
  have hlog := (State.suffix_expected s.advance .openParen).trans hrp.log_suffix
  obtain ⟨hq₁, hqb⟩ :=
    log_eq_of_suffix (hlog.trans (State.suffix_expected s₁ .closeParen)) hrb.log_suffix hq
  obtain ⟨hq₂, hc, hclose⟩ := quiet_expected (by decide) hlog hq₁
  obtain ⟨hq₃, hqp⟩ := log_eq_of_suffix (State.suffix_expected _ _) hrp.log_suffix hq₂
  obtain ⟨ho, hopen⟩ := takes_expected (by decide) hq₃
  obtain ⟨ps, htp, hdp⟩ := ihp hqp
  obtain ⟨bs, htb, hdb⟩ := ihb hqb
  have htake := (Takes.one (hfn ▸ by decide)).append
    (hopen.append (htp.append (hclose.append htb)))
  rw [htake.spanFrom_over (List.cons_ne_nil _ _)]
  exact ⟨_, htake, .function hfn ho hc hdp hdb (by simp)⟩

/-- The powers with which operands are read are not that of a call. -/
theorem operatorLevel_ne_call (h : k.operatorLevel? = some power) : power ≠ .call := by
  rintro rfl
  exact absurd (operatorLevel_bounds h).2 (by decide)

theorem binary_sound {right : Expr}
    (ih : (Phrase.expression power right).Sound s.advance s') :
    (Phrase.following .binary power left
      (.binary left s.current right (s'.spanFrom (startOf left s.current)))).Sound s s' := by
  intro hrule hq ls level hd hl
  rcases Table.standard_infixRule_cases hrule with ⟨-, hop⟩ | ⟨h, -⟩
  · have hne : s.kind ≠ .eof := by
      intro h
      rw [h] at hop
      cases hop
    rw [← State.log_advance s] at hq
    obtain ⟨rs, own, htr, ha, hdr, hp⟩ := ih (operatorLevel_ne_call hop) hq
    have htake : Takes (s.current :: rs) s s' := (Takes.one hne).append htr
    rw [htake.spanFrom (List.cons_ne_nil _ _) _ ls, hd.startOf]
    exact ⟨_, htake, .binary hop (ha.lt_of_operand hop) (hd.of_le hl) hdr rfl, hp⟩
  · cases h

theorem call_sound {es : List Expr} (hr : Run .standard (.arguments es) s.advance s₁)
    (ih : (Phrase.arguments es).Sound s.advance s₁) :
    (Phrase.following .call power left (.call left s.current es
      ((s₁.expected .closeParen).spanFrom (startOf left s.current)))).Sound s
      (s₁.expected .closeParen) := by
  intro hrule hq ls level hd hl
  rcases Table.standard_infixRule_cases hrule with ⟨h, -⟩ | ⟨-, rfl, hk⟩
  · cases h
  · rw [← State.log_advance s] at hq
    obtain ⟨hq₁, hc, hclose⟩ := quiet_expected (by decide) hr.log_suffix hq
    obtain ⟨as, hta, hda⟩ := ih hq₁
    have htake := (Takes.one (hk ▸ by decide)).append (hta.append hclose)
    rw [htake.spanFrom (List.cons_ne_nil _ _) _ ls, hd.startOf]
    refine ⟨_, htake, .call hk hc (hd.of_le hl) hda (by simp), ?_⟩
    exact Power.le_call _

theorem extend_sound {own : Power} {rule : InfixRule} {mid : Expr}
    (habove : Table.standard.infixAbove power s.kind = some (own, rule))
    (hrf : Run .standard (.following rule own left mid) s s₁)
    (hre : Run .standard (.extension power mid e) s₁ s')
    (ihf : (Phrase.following rule own left mid).Sound s s₁)
    (ihe : (Phrase.extension power mid e).Sound s₁ s') :
    (Phrase.extension power left e).Sound s s' := by
  intro hq ls level hd _ hp
  obtain ⟨hrule, hlt⟩ := Table.infixRule_of_infixAbove habove
  obtain ⟨hq₁, hq₂⟩ := log_eq_of_suffix hrf.log_suffix hre.log_suffix hq
  -- the operator was not taken into the first operand, so that is of the operator's level
  have hown : own ≤ level := by rwa [Table.power_of_infixRule hrule] at hp
  obtain ⟨ts, htf, hdf, hpf⟩ := ihf hrule hq₁ hd hown
  obtain ⟨us, level', hte, ha, hde, hpe⟩ := ihe hq₂ hdf (.inl hlt) hpf
  rw [List.append_assoc] at hde
  exact ⟨ts ++ us, level', htf.append hte, ha, hde, hpe⟩

/-- What begins an expression is read with every power but that of a call. -/
theorem admits_of_unary (h : .unary ≤ level) (hp : power ≠ .call) : Admits power level := by
  cases power with
  | call => exact absurd rfl hp
  | unary =>
    rcases Power.eq_or_lt_of_le h with rfl | hlt
    · exact .inr ⟨rfl, .inr rfl⟩
    · exact .inl hlt
  | _ => exact .inl (Nat.lt_of_lt_of_le (by decide) h)

theorem expression_sound {rule : PrefixRule} {first : Expr}
    (hrule : Table.standard.prefixRule s.kind = some rule)
    (hro : Run .standard (.opening rule first) s s₁)
    (hre : Run .standard (.extension power first e) s₁ s')
    (iho : (Phrase.opening rule first).Sound s s₁)
    (ihe : (Phrase.extension power first e).Sound s₁ s') :
    (Phrase.expression power e).Sound s s' := by
  intro hp hq
  obtain ⟨hq₁, hq₂⟩ := log_eq_of_suffix hro.log_suffix hre.log_suffix hq
  obtain ⟨ts, level, hto, hl, hdo, hpo⟩ := iho hrule hq₁
  obtain ⟨us, level', hte, ha, hde, hpe⟩ := ihe hq₂ hdo (admits_of_unary hl hp) hpo
  exact ⟨ts ++ us, level', hto.append hte, ha, hde, hpe⟩

/-- The hole is derived from no tokens. -/
theorem not_derives_absent : ¬ Derives (.expression level .absent) ts := by
  intro h
  have := h.isAbsent
  cases this

/-- Tokens do not go on with an expression if the first of them does not. -/
theorem unextended_of_power (ht : Takes us s s')
    (hp : Table.standard.power s.kind ≤ .lowest) : Unextended us := by
  intro u hu
  cases us with
  | nil => cases hu
  | cons t us =>
    cases hu
    rw [State.kind, ht.uncons.1] at hp
    exact Table.continues_eq_false_iff.2 hp

theorem argument_sound {es : List Expr} (hre : Run .standard (.expression .lowest e) s s₁)
    (hra : Run .standard (.arguments es) s₁ s')
    (ihe : (Phrase.expression .lowest e).Sound s s₁) (iha : (Phrase.arguments es).Sound s₁ s') :
    (Phrase.arguments (e :: es)).Sound s s' := by
  intro hq
  obtain ⟨hq₁, hq₂⟩ := log_eq_of_suffix hre.log_suffix hra.log_suffix hq
  obtain ⟨ts, level, hte, ha, hde, hp⟩ := ihe (by decide) hq₁
  obtain ⟨us, hta, hda⟩ := iha hq₂
  exact ⟨ts ++ us, hte.append hta, .argument (hde.of_le ha.le) hda (unextended_of_power hta hp)⟩

theorem parameter_sound {ps : List Symbol} (hk : s.kind = .identifier)
    (ih : (Phrase.parameters ps).Sound ((s.expected .identifier).passed .comma) s') :
    (Phrase.parameters (.ofToken s.current :: ps)).Sound s s' := by
  intro hq
  have hone : Takes [s.current] s s.advance := .one (hk ▸ by decide)
  rw [State.expected_of_kind hk] at ih
  by_cases hc : s.advance.kind = .comma
  · rw [State.passed_of_kind hc] at ih
    obtain ⟨ts, ht, hd⟩ := ih (by rw [hq, State.log_advance, State.log_advance])
    have hcomma : Takes [s.advance.current] s.advance s.advance.advance :=
      .one (hc ▸ by decide)
    exact ⟨_, hone.append (hcomma.append ht), .parameterComma hk hc hd⟩
  · rw [State.passed_of_kind_ne hc] at ih
    obtain ⟨ts, ht, hd⟩ := ih (by rw [hq, State.log_advance])
    exact ⟨_, hone.append ht, .parameter hk hd⟩

theorem block_sound {ss : List Stmt}
    (hr : Run .standard (.statements ss) (s.expected .openCurly) s₁)
    (ih : (Phrase.statements ss).Sound (s.expected .openCurly) s₁) :
    (Phrase.block ⟨s.current, ss, (s₁.expected .closeCurly).spanFrom s.current.span.start⟩).Sound s
      (s₁.expected .closeCurly) := by
  intro hq
  have hlog := (State.suffix_expected s .openCurly).trans hr.log_suffix
  obtain ⟨hq₁, hc, hclose⟩ := quiet_expected (by decide) hlog hq
  obtain ⟨hq₂, hq₃⟩ := log_eq_of_suffix (State.suffix_expected _ _) hr.log_suffix hq₁
  obtain ⟨ho, hopen⟩ := takes_expected (by decide) hq₂
  obtain ⟨ts, ht, hd⟩ := ih hq₃
  have htake := hopen.append (ht.append hclose)
  rw [htake.spanFrom_over (List.cons_ne_nil _ _)]
  exact ⟨_, htake, .block ho hc hd (by simp)⟩

theorem alternative_sound {b : Block} (hk : s.kind = .elseWord)
    (ih : (Phrase.block b).Sound s.advance s') : (Phrase.alternative (some b)).Sound s s' := by
  intro hq
  rw [← State.log_advance s] at hq
  obtain ⟨ts, ht, hd⟩ := ih hq
  exact ⟨_, (Takes.one (hk ▸ by decide)).append ht, .alternative hk hd⟩

theorem binding_sound
    (hr : Run .standard (.expression .lowest e)
      ((s.advance.expected .identifier).expected .assign) s₁)
    (ih : (Phrase.expression .lowest e).Sound
      ((s.advance.expected .identifier).expected .assign) s₁) :
    (Phrase.ruled .binding (.binding s.current (.ofToken s.advance.current) e
      ((s₁.expected .semicolon).spanFrom s.current.span.start))).Sound s
      (s₁.expected .semicolon) := by
  intro hrule hq
  have hlet : s.kind = .letWord := Table.standard_statementRule_cases hrule
  rw [← State.log_advance s] at hq
  -- from the end back to the front: no part noted a fault, and each mark is the right one
  have hname := State.suffix_expected s.advance .identifier
  have hassign := State.suffix_expected (s.advance.expected .identifier) .assign
  obtain ⟨hq₁, hc, hclose⟩ :=
    quiet_expected (by decide) (hname.trans (hassign.trans hr.log_suffix)) hq
  obtain ⟨hq₂, hqe⟩ := log_eq_of_suffix (hname.trans hassign) hr.log_suffix hq₁
  obtain ⟨hq₃, ha, hta⟩ := quiet_expected (by decide) hname hq₂
  obtain ⟨hi, hti⟩ := takes_expected (by decide) hq₃
  obtain ⟨ts, level, ht, hadmits, hd, -⟩ := ih (by decide) hqe
  have htake := (Takes.one (hlet ▸ by decide)).append
    (hti.append (hta.append (ht.append hclose)))
  rw [htake.spanFrom_over (List.cons_ne_nil _ _)]
  exact ⟨_, htake, .inl (.binding hlet hi ha hc (hd.of_le hadmits.le) (by simp))⟩

theorem returning_sound (hr : Run .standard (.returned e) s.advance s₁)
    (ih : (Phrase.returned e).Sound s.advance s₁) :
    (Phrase.ruled .returning (.returning s.current e
      ((s₁.expected .semicolon).spanFrom s.current.span.start))).Sound s
      (s₁.expected .semicolon) := by
  intro hrule hq
  have hreturn : s.kind = .returnWord := Table.standard_statementRule_cases hrule
  rw [← State.log_advance s] at hq
  obtain ⟨hq₁, hc, hclose⟩ := quiet_expected (by decide) hr.log_suffix hq
  have hone : Takes [s.current] s s.advance := .one (hreturn ▸ by decide)
  -- either the semicolon stands in place of a value, or a value before the semicolon
  rcases ih hq₁ with ⟨rfl, rfl⟩ | ⟨ts, ht, hd⟩
  · have htake := hone.append hclose
    rw [htake.spanFrom_over (List.cons_ne_nil _ _)]
    exact ⟨_, htake, .inl (.returningNothing hreturn hc rfl)⟩
  · have htake := hone.append (ht.append hclose)
    rw [htake.spanFrom_over (List.cons_ne_nil _ _)]
    exact ⟨_, htake, .inl (.returning hreturn hc hd (by simp))⟩

theorem bare_sound (ih : (Phrase.expression .lowest e).Sound s s₁) :
    (Phrase.ruled .expression (.expression s.current e
      ((s₁.passed .semicolon).spanFrom s.current.span.start))).Sound s
      (s₁.passed .semicolon) := by
  intro _ hq
  rw [State.log_passed] at hq
  obtain ⟨ts, level, ht, ha, hd, hp⟩ := ih (by decide) hq
  obtain ⟨t, us, rfl, -⟩ := hd.begins
  obtain rfl := ht.uncons.1
  by_cases hc : s₁.kind = .semicolon
  · rw [State.passed_of_kind hc]
    have htake := ht.append (.one (hc ▸ by decide))
    rw [htake.spanFrom_over (List.cons_ne_nil _ _)]
    exact ⟨_, htake, .inl (.ended hc (hd.of_le ha.le) rfl)⟩
  · -- nothing ends the statement, so what follows must not go on with it
    rw [State.passed_of_kind_ne hc, ht.spanFrom_over (List.cons_ne_nil _ _)]
    exact ⟨_, ht, .inr ⟨_, us, e, rfl, rfl, hd.of_le ha.le, hp⟩⟩

theorem statements_sound {st : Stmt} {ss : List Stmt} (hrs : Run .standard (.statement st) s s₁)
    (hrss : Run .standard (.statements ss) s₁ s') (ihs : (Phrase.statement st).Sound s s₁)
    (ihss : (Phrase.statements ss).Sound s₁ s') : (Phrase.statements (st :: ss)).Sound s s' := by
  intro hq
  obtain ⟨hq₁, hq₂⟩ := log_eq_of_suffix hrs.log_suffix hrss.log_suffix hq
  obtain ⟨ts, ht, hst⟩ := ihs hq₁
  obtain ⟨us, hts, hds⟩ := ihss hq₂
  rcases hst with hd | ⟨t, vs, e, rfl, rfl, hd, hp⟩
  · exact ⟨ts ++ us, ht.append hts, .statement hd hds⟩
  · exact ⟨_, ht.append hts, .unended hd hds (unextended_of_power hts hp)⟩

/-- **What is read without a fault is derived** from the tokens taken. -/
theorem Descent.Run.derives {p : Phrase} (h : Run .standard p s s') : p.Sound s s' := by
  induction h with
  | hole =>
    intro _ hq
    rw [State.log_note, State.log_advance] at hq
    exact absurd hq (List.cons_ne_self _ _)
  | expression hrule hro hre iho ihe => exact expression_sound hrule hro hre iho ihe
  | literal h =>
    intro hrule hq
    obtain ⟨hd, rfl⟩ := literal_sound hrule h hq
    have hne := Table.standard_prefixRule_cases hrule
    refine ⟨_, _, .one ?_, by decide, hd, Power.le_call _⟩
    intro h
    simp [h] at hne
  | @unary s s' e _ ih =>
    intro hrule hq
    rw [← State.log_advance s] at hq
    obtain ⟨ts, level, ht, ha, hd, hp⟩ := ih (by decide) hq
    obtain ⟨htake, hd'⟩ := unary_sound hrule ht ha hd
    exact ⟨_, _, htake, by decide, hd', hp⟩
  | opened _ ih =>
    intro _ hq
    obtain ⟨o, es, c, ho, hc, ht, hd⟩ := ih hq
    exact ⟨_, _, ht, by decide, .group ho hc hd, Power.le_call _⟩
  | conditional hre hrb hra ihe ihb iha =>
    intro hrule hq
    obtain ⟨ts, ht, hd⟩ := conditional_sound hrule hre hrb hra ihe ihb iha hq
    exact ⟨ts, _, ht, by decide, hd, Power.le_call _⟩
  | function hrp hrb ihp ihb =>
    intro hrule hq
    obtain ⟨ts, ht, hd⟩ := function_sound hrule hrp hrb ihp ihb hq
    exact ⟨ts, _, ht, by decide, hd, Power.le_call _⟩
  | group hr ih => exact group_sound hr ih
  | stop hk =>
    intro _ ls level hd ha _
    exact ⟨[], level, .nil, ha, by rwa [List.append_nil],
      Table.standard_infixAbove_eq_none.1 hk⟩
  | extend habove hrf hre ihf ihe => exact extend_sound habove hrf hre ihf ihe
  | binary _ ih => exact binary_sound ih
  | call hr ih => exact call_sound hr ih
  | argumentsEnd => exact fun _ => ⟨[], .nil, .argumentsEnd⟩
  | @comma s s' es hk _ ih =>
    intro hq
    rw [← State.log_advance s] at hq
    obtain ⟨ts, ht, hd⟩ := ih hq
    exact ⟨_, (Takes.one (hk ▸ by decide)).append ht, .comma hk hd⟩
  | noArgument _ _ hre hra ihe =>
    intro hq
    obtain ⟨hq₁, -⟩ := log_eq_of_suffix hre.log_suffix hra.log_suffix hq
    obtain ⟨ts, level, -, -, hd, -⟩ := ihe (by decide) hq₁
    exact absurd hd not_derives_absent
  | argument _ _ _ hre hra ihe iha => exact argument_sound hre hra ihe iha
  | parametersEnd => exact fun _ => ⟨[], .nil, .parametersEnd⟩
  | noParameter _ hi hr =>
    intro hq
    have hlog := hr.log_suffix
    rw [State.log_passed] at hlog
    obtain ⟨hq₁, -⟩ := log_eq_of_suffix (State.suffix_expected _ _) hlog hq
    exact absurd (State.kind_of_log_expected hq₁) hi
  | parameter hk _ ih => exact parameter_sound hk ih
  | block hr ih => exact block_sound hr ih
  | noAlternative => exact fun _ => ⟨[], .nil, .noAlternative⟩
  | alternative hk _ ih => exact alternative_sound hk ih
  | noValue => exact fun _ => .inl ⟨rfl, rfl⟩
  | value _ _ ih =>
    intro hq
    obtain ⟨ts, level, ht, ha, hd, -⟩ := ih (by decide) hq
    exact .inr ⟨ts, ht, hd.of_le ha.le⟩
  | binding hr ih => exact binding_sound hr ih
  | returning hr ih => exact returning_sound hr ih
  | ruledBlock _ ih =>
    intro _ hq
    obtain ⟨ts, ht, hd⟩ := ih hq
    exact ⟨ts, ht, .inl (.blockStatement hd)⟩
  | bare _ ih => exact bare_sound ih
  | statement _ ih => exact fun hq => ih rfl hq
  | statementsEnd => exact fun _ => ⟨[], .nil, .statementsEnd⟩
  | statements _ hrs hrss ihs ihss => exact statements_sound hrs hrss ihs ihss

/-- A closing brace begins no statement. -/
theorem log_ne_of_closeCurly {st : Stmt} (hk : s.kind = .closeCurly)
    (h : Run .standard (.statement st) s s') : s'.log ≠ s.log := by
  intro hq
  obtain ⟨ts, ht, hst⟩ := h.derives hq
  have hbegins : ∃ t us, ts = t :: us ∧
      ((Table.standard.statementRule t.kind).isSome = true ∨
        (Table.standard.prefixRule t.kind).isSome = true) := by
    rcases hst with hd | ⟨t, us, e, -, -, hd, -⟩
    · exact hd.begins
    · obtain ⟨t, us, hts, hp⟩ := hd.begins
      exact ⟨t, us, hts, .inr hp⟩
  obtain ⟨t, us, rfl, hp⟩ := hbegins
  rw [← ht.uncons.1, ← State.kind, hk] at hp
  rcases hp with hp | hp <;> cases hp

theorem endsBlock_eq_true_iff : endsBlock k = true ↔ k = .closeCurly ∨ k = .eof := by
  simp [endsBlock]

/-- A program that is read without a fault is read like the statements of a block. -/
theorem statements_of_topRun {recovery : Recovery} {ss : List Stmt}
    (h : TopRun .standard recovery ss s s') (hq : s'.log = s.log) :
    Run .standard (.statements ss) s s' := by
  induction h with
  | done hk => exact .statementsEnd (by rw [hk]; rfl)
  | @next s s₁ s₂ s' st ss hne hs hr hss ih =>
    obtain ⟨ts, ht⟩ := recover_takes hr
    have hlog := hss.log_suffix
    rw [ht.log] at hlog
    obtain ⟨hq₁, hq₂⟩ := log_eq_of_suffix hs.log_suffix hlog hq
    -- without a fault nothing was skipped, and no closing brace can have stood there
    have hskip : s₂ = s₁ := by
      rw [recover_of_log hq₁] at hr
      exact (Prod.mk.inj (Option.some.inj hr)).2.symm
    subst hskip
    have hblock : endsBlock s.kind = false := by
      cases hb : endsBlock s.kind with
      | false => rfl
      | true =>
        rcases endsBlock_eq_true_iff.1 hb with hk | hk
        · exact absurd hq₁ (log_ne_of_closeCurly hk hs)
        · exact absurd hk hne
    exact .statements hblock hs (ih hq₂)

/-- What is read from a text without a fault is spelled by its tokens. -/
theorem derives_of_read {source : String} {recovery : Recovery}
    (h : (read source recovery).diagnostics = []) :
    Derives (.statements (read source recovery).program.body)
        (Scanner.ofString source).drain.ahead ∧
      (read source recovery).program.span =
        ⟨0, (Scanner.ofString source).drain.final.span.stop⟩ := by
  obtain ⟨s', hrun, hspan, hdiag⟩ := read_run source recovery
  have hlog : s'.log = [] := by
    rw [h, State.diagnostics] at hdiag
    exact List.reverse_eq_nil_iff.1 hdiag.symm
  obtain ⟨ts, ht, hd⟩ := (statements_of_topRun hrun hlog).derives hlog
  have hahead : (Scanner.ofString source).drain.ahead = ts ++ s'.stream.ahead := ht.ahead
  -- what is left would have to begin with a token of the kind of the end, but none is
  have hnil : s'.stream.ahead = [] := by
    apply State.ahead_eq_nil hrun.kind_eof
    intro t hleft
    exact Scanner.kind_ne_eof_of_mem_drain (hahead ▸ List.mem_append_right ts hleft)
  have hcurrent : s'.current = (Scanner.ofString source).drain.final := ht.current_of_nil hnil
  rw [hnil, List.append_nil] at hahead
  rw [hahead, hspan, hcurrent]
  exact ⟨hd, rfl⟩

/-- That a form has all its parts. -/
def Form.Whole : Form → Prop
  | .expression _ e => e.isAbsent = false ∧ ∀ n ∈ e.nodes, n.Whole
  | .parameters ps => ∀ p ∈ ps, p.token.kind = .identifier
  | .arguments es => (∀ e ∈ es, e.isAbsent = false) ∧ ∀ n ∈ Expr.nodesAll es, n.Whole
  | .block b => ∀ n ∈ b.nodes, n.Whole
  | .alternative b => ∀ c ∈ b, ∀ n ∈ c.nodes, n.Whole
  | .statement s => ∀ n ∈ s.nodes, n.Whole
  | .statements ss => ∀ n ∈ Stmt.nodesAll ss, n.Whole

/-- What is derived has all its parts. -/
theorem Derives.whole {f : Form} (h : Derives f ts) : f.Whole := by
  induction h with
  | tighter _ _ ih => exact ih
  | binary _ _ _ _ _ ihl ihr =>
    simp only [Form.Whole, Expr.nodes, List.forall_mem_cons, List.forall_mem_append]
    exact ⟨rfl, ⟨ihl.1, ihr.1⟩, ihl.2, ihr.2⟩
  | unary _ _ _ ih =>
    simp only [Form.Whole, Expr.nodes, List.forall_mem_cons]
    exact ⟨rfl, ih⟩
  | call _ _ _ _ _ ihf iha =>
    simp only [Form.Whole, Expr.nodes, List.forall_mem_cons, List.forall_mem_append]
    exact ⟨rfl, ⟨ihf.1, iha.1⟩, ihf.2, iha.2⟩
  | group _ _ _ ih => exact ih
  | @conditional ts cs bs as i o c e b a _ _ _ _ _ _ _ ihe ihb iha =>
    cases a with
    | none =>
      simp only [Form.Whole, Expr.nodes, List.forall_mem_cons, List.forall_mem_append]
      exact ⟨rfl, ihe.1, ihe.2, ihb⟩
    | some a =>
      simp only [Form.Whole, Expr.nodes, List.forall_mem_cons, List.forall_mem_append]
      exact ⟨rfl, ihe.1, ⟨ihe.2, ihb⟩, iha a rfl⟩
  | function _ _ _ _ _ _ ihp ihb =>
    simp only [Form.Whole, Expr.nodes, List.forall_mem_cons]
    exact ⟨rfl, ihp, ihb⟩
  | parametersEnd => exact List.forall_mem_nil _
  | parameter hk _ ih => exact List.forall_mem_cons.2 ⟨hk, ih⟩
  | parameterComma hk _ _ ih => exact List.forall_mem_cons.2 ⟨hk, ih⟩
  | argumentsEnd => exact ⟨List.forall_mem_nil _, List.forall_mem_nil _⟩
  | comma _ _ ih => exact ih
  | argument _ _ _ ihe iha =>
    simp only [Form.Whole, Expr.nodesAll, List.forall_mem_cons, List.forall_mem_append]
    exact ⟨⟨ihe.1, iha.1⟩, ihe.2, iha.2⟩
  | block ho _ _ _ ih =>
    simp only [Form.Whole, Block.nodes, List.forall_mem_cons]
    exact ⟨ho, ih⟩
  | noAlternative => exact fun c hc => by cases hc
  | alternative _ _ ih =>
    intro c hc
    cases hc
    exact ih
  | binding _ hi _ _ _ _ ih =>
    simp only [Form.Whole, Stmt.nodes, List.forall_mem_cons]
    exact ⟨⟨hi, ih.1⟩, ih.2⟩
  | returningNothing =>
    simp [Form.Whole, Stmt.nodes, Expr.nodes, Node.Whole]
  | returning _ _ _ _ ih =>
    simp only [Form.Whole, Stmt.nodes, List.forall_mem_cons]
    exact ⟨trivial, ih.2⟩
  | blockStatement _ ih =>
    simp only [Form.Whole, Stmt.nodes, List.forall_mem_cons]
    exact ⟨trivial, ih⟩
  | ended _ _ _ ih =>
    simp only [Form.Whole, Stmt.nodes, List.forall_mem_cons]
    exact ih
  | statementsEnd => exact List.forall_mem_nil _
  | statement _ _ ihs ihss =>
    simp only [Form.Whole, Stmt.nodesAll, List.forall_mem_append]
    exact ⟨ihs, ihss⟩
  | unended _ _ _ ihe ihss =>
    simp only [Form.Whole, Stmt.nodesAll, Stmt.nodes, List.cons_append, List.forall_mem_cons,
      List.forall_mem_append]
    exact ⟨ihe.1, ihe.2, ihss⟩
  | _ => simp [Form.Whole, Expr.nodes, Expr.isAbsent, Node.Whole]

/-- **Soundness of reading.** The tokens of a text that is read without a fault spell the program
that it is read as, whatever is done after faults, and the program has all its parts. -/
theorem derivedFrom_of_read {source : String} {recovery : Recovery}
    (h : (read source recovery).diagnostics = []) :
    (read source recovery).program.DerivedFrom (tokenize source) ∧
      ∀ n ∈ (read source recovery).program.nodes, n.Whole := by
  obtain ⟨hd, hspan⟩ := derives_of_read h
  exact ⟨⟨_, _, rfl, rfl, hd, hspan⟩, hd.whole⟩

theorem derivedFrom_signedProduct :
    (read "-a(b)*c" .lenient).diagnostics = [] ∧
      (read "-a(b)*c" .lenient).program.DerivedFrom (tokenize "-a(b)*c") ∧
      ∀ n ∈ (read "-a(b)*c" .lenient).program.nodes, n.Whole := by
  have h : (read "-a(b)*c" .lenient).diagnostics = [] := by
    rw [read_of_statements .lenient derives_signedProduct]
  exact ⟨h, derivedFrom_of_read h⟩

end Monkey

import Monkey.Proofs.Operations

/-!
# What of a table matters

A reader looks up the rules for the current token and for no other. So a run by one table is a run
by any table that agrees with it on the kinds of the tokens to come (`Run.of_agree`,
`TopRun.of_agree`), and a rule that is set for a kind that does not occur is never looked up. Main
statement: `Session.program?_local`.
-/

namespace Monkey

open Descent

/-- By both tables a kind calls for the same rules. -/
structure Table.AgreeOn (t u : Table) (k : Kind) : Prop where
  statementRule : u.statementRule k = t.statementRule k
  prefixRule : u.prefixRule k = t.prefixRule k
  infixRule : u.infixRule k = t.infixRule k

variable {t u : Table} {k : Kind} {source : String} {recovery : Recovery}

namespace Table.AgreeOn

instance : Decidable (t.AgreeOn u k) :=
  decidable_of_iff (u.statementRule k = t.statementRule k ∧ u.prefixRule k = t.prefixRule k ∧
      u.infixRule k = t.infixRule k)
    ⟨fun ⟨hs, hp, hi⟩ => ⟨hs, hp, hi⟩, fun ⟨hs, hp, hi⟩ => ⟨hs, hp, hi⟩⟩

theorem refl (t : Table) (k : Kind) : t.AgreeOn t k := ⟨rfl, rfl, rfl⟩

theorem trans {v : Table} (h : t.AgreeOn u k) (h' : u.AgreeOn v k) : t.AgreeOn v k :=
  ⟨h'.statementRule.trans h.statementRule, h'.prefixRule.trans h.prefixRule,
    h'.infixRule.trans h.infixRule⟩

theorem infixAbove (h : t.AgreeOn u k) (power : Power) :
    u.infixAbove power k = t.infixAbove power k := by
  unfold Table.infixAbove
  rw [h.infixRule]

end Table.AgreeOn

namespace Descent

variable {s s₁ s' : State}

namespace State

/-- The kinds of the tokens to come, the end of the text among them. -/
def kinds (s : State) : List Kind := s.stream.toList.map (·.kind)

theorem eof_mem_kinds (s : State) : .eof ∈ s.kinds :=
  List.mem_map.2 ⟨s.stream.final, List.mem_append_right _ (List.mem_singleton_self _), rfl⟩

theorem kind_mem_kinds (s : State) : s.kind ∈ s.kinds := by
  unfold kinds kind current TokenStream.head TokenStream.toList
  cases s.stream.ahead <;> simp

/-- Reading on brings no kinds that were not to come. -/
theorem Precedes.kinds_subset (h : s.Precedes s') : s'.kinds ⊆ s.kinds := by
  obtain ⟨ts, ht⟩ := h.takes
  have hahead : s.stream.ahead = ts ++ s'.stream.ahead := ht.ahead
  have hstop : s'.stream.stop = s.stream.stop := ht.stop
  unfold kinds TokenStream.toList TokenStream.final
  rw [hahead, hstop, List.append_assoc]
  exact List.map_subset _ (List.subset_append_right ts _)

/-- Both tables agree on all kinds to come. -/
def Agreed (t u : Table) (s : State) : Prop := ∀ k ∈ s.kinds, t.AgreeOn u k

namespace Agreed

theorem current (h : s.Agreed t u) : t.AgreeOn u s.kind := h _ s.kind_mem_kinds

theorem mono (h : s.Agreed t u) (hs : s.Precedes s') : s'.Agreed t u :=
  fun k hk => h k (hs.kinds_subset hk)

theorem advance (h : s.Agreed t u) : s.advance.Agreed t u := h.mono (.advance s)

theorem expected (h : s.Agreed t u) (k : Kind) : (s.expected k).Agreed t u := h.mono (.expected s k)

theorem passed (h : s.Agreed t u) (k : Kind) : (s.passed k).Agreed t u := h.mono (.passed s k)

theorem behind {p : Phrase} (h : s.Agreed t u) (hr : Run t p s s') : s'.Agreed t u :=
  h.mono hr.precedes

/-- The end of the text is always to come. -/
theorem sparesEnd (h : s.Agreed t u) (ht : t.SparesEnd) : u.SparesEnd := by
  have hend := h .eof s.eof_mem_kinds
  exact ⟨hend.prefixRule.trans ht.1, hend.infixRule.trans ht.2⟩

end Agreed

end State

/-- **A run by one table is a run by another** that agrees with it on the kinds to come. -/
theorem Run.of_agree {p : Phrase} (h : Run t p s s') (ha : s.Agreed t u) : Run u p s s' := by
  -- what is looked up on the way is the rule for the current token, and on what is to come behind
  -- a part the tables still agree
  induction h with
  | hole h => exact .hole (ha.current.prefixRule.trans h)
  | expression h ho _ iho ihe =>
    exact .expression (ha.current.prefixRule.trans h) (iho ha) (ihe (ha.behind ho))
  | literal h => exact .literal h
  | unary _ ih => exact .unary (ih ha.advance)
  | opened _ ih => exact .opened (ih ha)
  | conditional he hb _ ihe ihb iha =>
    have hcondition := ha.advance.behind he
    exact .conditional (ihe ha.advance) (ihb hcondition) (iha (hcondition.behind hb))
  | function hp _ ihp ihb =>
    have hopened := ha.advance.expected .openParen
    exact .function (ihp hopened) (ihb ((hopened.behind hp).expected .closeParen))
  | group _ ih => exact .group (ih (ha.expected .openParen))
  | stop h => exact .stop ((ha.current.infixAbove _).trans h)
  | extend h hf _ ihf ihe =>
    exact .extend ((ha.current.infixAbove _).trans h) (ihf ha) (ihe (ha.behind hf))
  | binary _ ih => exact .binary (ih ha.advance)
  | call _ ih => exact .call (ih ha.advance)
  | argumentsEnd h => exact .argumentsEnd h
  | comma h _ ih => exact .comma h (ih ha.advance)
  | noArgument h hc he _ ihe iha => exact .noArgument h hc (ihe ha) (iha (ha.behind he))
  | argument h hc hp he _ ihe iha => exact .argument h hc hp (ihe ha) (iha (ha.behind he))
  | parametersEnd h => exact .parametersEnd h
  | noParameter h hi _ ih =>
    exact .noParameter h hi (ih ((ha.expected .identifier).passed .comma))
  | parameter h _ ih => exact .parameter h (ih ((ha.expected .identifier).passed .comma))
  | block _ ih => exact .block (ih (ha.expected .openCurly))
  | noAlternative h => exact .noAlternative h
  | alternative h _ ih => exact .alternative h (ih ha.advance)
  | noValue h => exact .noValue h
  | value h _ ih => exact .value h (ih ha)
  | binding _ ih => exact .binding (ih ((ha.advance.expected .identifier).expected .assign))
  | returning _ ih => exact .returning (ih ha.advance)
  | ruledBlock _ ih => exact .ruledBlock (ih ha)
  | bare _ ih => exact .bare (ih ha)
  | statement _ ih =>
    have hrun := ih ha
    rw [← ha.current.statementRule] at hrun
    exact .statement hrun
  | statementsEnd h => exact .statementsEnd h
  | statements h hs _ ihs ihss => exact .statements h (ihs ha) (ihss (ha.behind hs))

theorem recover_precedes {before : Nat} (h : recover recovery before s = some ((), s')) :
    s.Precedes s' := by
  obtain ⟨ms, hm, -⟩ := recover_moves h
  exact .of_moves hm

theorem TopRun.of_agree {ss : List Stmt} (h : TopRun t recovery ss s s') (ha : s.Agreed t u) :
    TopRun u recovery ss s s' := by
  induction h with
  | done h => exact .done h
  | next h hs hr _ ih =>
    exact .next h (hs.of_agree ha) hr (ih ((ha.behind hs).mono (recover_precedes hr)))

end Descent

/-- The kind for which an operation sets a rule, if that is what it does. -/
def Operation.ruled? : Operation → Option Kind
  | .setStatement k _ | .setPrefix k _ | .setInfix k _ _ => some k
  | _ => none

namespace Session

variable {s r : Session}

/-- A session at the start of a text, with the rules of a table. -/
def ofString (t : Table) (source : String) (recovery : Recovery) : Session :=
  ⟨t, recovery, .start (Scanner.ofString source).drain⟩

/-- Both sessions read the rest of their text, and they read the same program and note the same
faults. -/
def ReadsAlike (s r : Session) : Prop :=
  ∃ p state, s.program? = some (p, { s with state }) ∧ r.program? = some (p, { r with state })

/-- A session reads the rest of its text by a run. -/
theorem program?_run (hs : s.table.SparesEnd) : ∃ ss state,
    s.program? = some (⟨ss, ⟨0, state.current.span.stop⟩⟩, { s with state }) ∧
      TopRun s.table s.recovery ss s.state state := by
  have hanswer := (program_reaches (s := s.state) hs s.recovery).isSome
  obtain ⟨⟨⟨ss, span⟩, state⟩, hp⟩ := Option.isSome_iff_exists.1 hanswer
  obtain ⟨hrun, rfl⟩ := program_run (nested_obeys s.table _) hp
  refine ⟨ss, state, ?_, hrun⟩
  rw [program?, read?, hp]
  rfl

/-- Sessions in the same state read alike if their tables agree on the kinds to come. -/
theorem readsAlike_of_agreed (hs : s.table.SparesEnd) (hstate : r.state = s.state)
    (hrecovery : r.recovery = s.recovery) (ha : s.state.Agreed s.table r.table) :
    s.ReadsAlike r := by
  obtain ⟨ss, state, hread, hrun⟩ := program?_run hs
  obtain ⟨ss', state', hread', hrun'⟩ := program?_run (ha.sparesEnd hs)
  rw [hstate, hrecovery] at hrun'
  obtain ⟨rfl, rfl⟩ := (hrun.of_agree ha).unique hrun'
  exact ⟨_, _, hread, hread'⟩

/-- Setting a rule changes nothing but the rules for one kind. -/
theorem step?_of_ruled {op : Operation} (h : op.ruled? = some k) : ∃ u,
    s.step? op = some { s with table := u } ∧ ∀ l, l ≠ k → s.table.AgreeOn u l := by
  cases op with
  | setStatement k' rule =>
    obtain rfl := Option.some.inj h
    exact ⟨_, rfl, fun l hl => ⟨if_neg hl, rfl, rfl⟩⟩
  | setPrefix k' rule =>
    obtain rfl := Option.some.inj h
    exact ⟨_, rfl, fun l hl => ⟨rfl, if_neg hl, rfl⟩⟩
  | setInfix k' power rule =>
    obtain rfl := Option.some.inj h
    exact ⟨_, rfl, fun l hl => ⟨rfl, rfl, if_neg hl⟩⟩
  | _ => cases h

/-- Rules that are set one after the other change nothing but those for their kinds. -/
theorem perform?_of_ruled {ops : List Operation} {ks : List Kind}
    (h : ∀ op ∈ ops, ∃ k, op.ruled? = some k ∧ k ∉ ks) : ∃ u,
    s.perform? ops = some { s with table := u } ∧ ∀ l ∈ ks, s.table.AgreeOn u l := by
  induction ops generalizing s with
  | nil => exact ⟨s.table, rfl, fun l _ => .refl _ l⟩
  | cons op ops ih =>
    obtain ⟨⟨k, hk, hout⟩, hrest⟩ := List.forall_mem_cons.1 h
    obtain ⟨u, hstep, hu⟩ := step?_of_ruled (s := s) hk
    obtain ⟨v, hops, hv⟩ := ih (s := { s with table := u }) hrest
    refine ⟨v, ?_, fun l hl => ?_⟩
    · rw [perform?, hstep]
      exact hops
    · have hne : l ≠ k := fun h => hout (h ▸ hl)
      exact (hu l hne).trans (hv l hl)

/-- **Only the rules for kinds that occur matter.** By two tables that agree on the kinds of all
tokens of a text, its end included, the text is read as the same program and with the same faults.
So it makes no difference to a text which rules are set for kinds that do not occur in it. The end
of the text is to call for no rule inside an expression. -/
theorem program?_local (ht : t.SparesEnd) (source : String) (recovery : Recovery) :
    (∀ u : Table, (∀ k ∈ (tokenize source).map (·.kind), t.AgreeOn u k) →
        (ofString t source recovery).ReadsAlike (ofString u source recovery)) ∧
      ∀ ops : List Operation,
        (∀ op ∈ ops, ∃ k, op.ruled? = some k ∧ k ∉ (tokenize source).map (·.kind)) →
        ∃ r, (ofString t source recovery).perform? ops = some r ∧
          (ofString t source recovery).ReadsAlike r := by
  constructor
  · intro u ha
    exact readsAlike_of_agreed ht rfl rfl ha
  · intro ops hops
    obtain ⟨u, hperform, ha⟩ := perform?_of_ruled (s := ofString t source recovery) hops
    exact ⟨_, hperform, readsAlike_of_agreed ht rfl rfl ha⟩

/-- A call breaks off behind what stands for a name by a rule of its own. Neither a star nor braces
occur in the text, so they may call for any rules. -/
theorem program?_local_brokenCall :
    (Table.standard.setPrefix .illegal .literal).SparesEnd ∧
      (ofString (Table.standard.setPrefix .illegal .literal) "f(1 @" .synchronize).ReadsAlike
        (ofString ((Table.standard.setPrefix .illegal .literal).setInfix .star .unary .call)
          "f(1 @" .synchronize) ∧
      ∃ r, (ofString (Table.standard.setPrefix .illegal .literal) "f(1 @" .synchronize).perform?
          [.setStatement .openCurly .returning, .setPrefix .closeCurly .group] = some r ∧
        (ofString (Table.standard.setPrefix .illegal .literal) "f(1 @" .synchronize).ReadsAlike r := by
  have hspares : (Table.standard.setPrefix .illegal .literal).SparesEnd := ⟨rfl, rfl⟩
  obtain ⟨hagree, hset⟩ := program?_local hspares "f(1 @" .synchronize
  have hkinds : (tokenize "f(1 @").map (·.kind) =
      [.identifier, .openParen, .integer, .illegal, .eof] := by decide +kernel
  rw [hkinds] at hagree hset
  refine ⟨hspares, hagree _ (by decide), hset _ ?_⟩
  refine List.forall_mem_cons.2 ⟨⟨.openCurly, rfl, by decide⟩, List.forall_mem_singleton.2 ?_⟩
  exact ⟨.closeCurly, rfl, by decide⟩

end Session

end Monkey

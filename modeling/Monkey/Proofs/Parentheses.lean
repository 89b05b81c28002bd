import Monkey.Proofs.Positions
import Monkey.Proofs.Slices

/-!
# An expression by itself

A group in parentheses has no node of its own. The node of an operator starts where that of its left
operand does, and the node of a call where that of what is called does: behind the parentheses that
these stand in, though it stops behind all that close. So the text at the span of an expression need
not be the text that spells it: parentheses may be left out in front, and nothing else
(`Derives.starts`).

As many parentheses close in an expression as open (`Derives.surplus_eq_zero`), so what is left out
shows in the text at the span: it is read as the expression exactly if its own parentheses pair up.
Main statement: `read_expression_iff`.
-/

namespace Monkey

variable {f : Form} {ts us : List Token} {t : Token} {n : Node} {e : Expr} {level : Power}
  {source : String}

/-- What a token of some kind adds to the parentheses that are open. -/
def Kind.turn : Kind → Int
  | .openParen => 1
  | .closeParen => -1
  | _ => 0

theorem Kind.turn_of_operatorLevel? {k : Kind} (h : k.operatorLevel? = some level) : k.turn = 0 := by
  cases k <;> first | rfl | cases h

/-- How many more parentheses some tokens open than they close. -/
def surplus : List Token → Int
  | [] => 0
  | t :: ts => t.kind.turn + surplus ts

@[simp] theorem surplus_nil : surplus [] = 0 := rfl

@[simp] theorem surplus_cons (t : Token) (ts : List Token) :
    surplus (t :: ts) = t.kind.turn + surplus ts := rfl

@[simp] theorem surplus_append (ts us : List Token) :
    surplus (ts ++ us) = surplus ts + surplus us := by
  induction ts with
  | nil => simp
  | cons t ts ih => rw [List.cons_append, surplus_cons, surplus_cons, ih, Int.add_assoc]

/-- The places of the tokens do not count. -/
theorem surplus_map_mapSpan (g : Span → Span) (ts : List Token) :
    surplus (ts.map (Token.mapSpan g)) = surplus ts := by
  induction ts with
  | nil => rfl
  | cons t ts ih => rw [List.map_cons, surplus_cons, surplus_cons, ih, Token.mapSpan]

theorem surplus_of_opens (h : ∀ t ∈ ts, t.kind = .openParen) : surplus ts = ts.length := by
  induction ts with
  | nil => rfl
  | cons t ts ih =>
    obtain ⟨ht, hts⟩ := List.forall_mem_cons.1 h
    rw [surplus_cons, ht, ih hts, List.length_cons, Kind.turn]
    omega

/-- **As many parentheses close in a form as open.** -/
theorem Derives.surplus_eq_zero (h : Derives f ts) : surplus ts = 0 := by
  induction h with
  | tighter _ _ ih => exact ih
  | binary ho _ _ _ ht ihl ihr => simp [ht, ihl, ihr, Kind.turn_of_operatorLevel? ho]
  | unary ho _ ht ih => rcases ho with ho | ho <;> simp [ht, ho, ih, Kind.turn]
  | call ho hc _ _ ht ihf iha => simp [ht, ho, hc, ihf, iha, Kind.turn]
  | integer h | identifier h | truth h | falsehood h => simp [h, Kind.turn]
  | group ho hc _ ih => simp [ho, hc, ih, Kind.turn]
  | conditional hi ho hc _ _ _ ht ihe ihb iha => simp [ht, hi, ho, hc, ihe, ihb, iha, Kind.turn]
  | function hf ho hc _ _ ht ihp ihb => simp [ht, hf, ho, hc, ihp, ihb, Kind.turn]
  | parameter h _ ih => simp [h, ih, Kind.turn]
  | parameterComma h hc _ ih => simp [h, hc, ih, Kind.turn]
  | comma h _ ih => simp [h, ih, Kind.turn]
  | argument _ _ _ ihe iha => simp [ihe, iha]
  | block ho hc _ ht ih => simp [ht, ho, hc, ih, Kind.turn]
  | alternative h _ ih => simp [h, ih, Kind.turn]
  | binding hl hi ha hc _ ht ih => simp [ht, hl, hi, ha, hc, ih, Kind.turn]
  | returningNothing hr hc ht => simp [ht, hr, hc, Kind.turn]
  | returning hr hc _ ht ih => simp [ht, hr, hc, ih, Kind.turn]
  | blockStatement _ ih => exact ih
  | ended hc _ ht ih =>
    rw [ht, surplus_append, ih, surplus_cons, hc]
    rfl
  | statement _ _ ihs ihss => simp [ihs, ihss]
  | unended _ _ _ ih ihss => rw [surplus_append, ih, ihss, Int.add_zero]
  | _ => rfl

/-- **Only parentheses that open stand in front of where an expression starts.** -/
theorem Derives.starts (h : Derives (.expression level e) ts) :
    ∃ opens t us, ts = opens ++ t :: us ∧ (∀ o ∈ opens, o.kind = .openParen) ∧
      e.start = t.span.start := by
  generalize hf : Form.expression level e = f at h
  induction h generalizing level e with
  | tighter _ _ ih =>
    cases hf
    exact ih rfl
  | binary _ _ _ _ ht ihl _ =>
    cases hf
    obtain ⟨opens, t, us, rfl, hopens, hstart⟩ := ihl rfl
    exact ⟨opens, t, _, ht.trans (List.append_assoc ..), hopens, hstart⟩
  | @call ts fs as o c _ _ _ _ _ _ ht ihf _ =>
    cases hf
    obtain ⟨opens, t, us, rfl, hopens, hstart⟩ := ihf rfl
    exact ⟨opens, t, us ++ o :: as ++ [c], by simp [ht], hopens, hstart⟩
  | @group es o c _ ho _ _ ih =>
    cases hf
    obtain ⟨opens, t, us, rfl, hopens, hstart⟩ := ih rfl
    refine ⟨o :: opens, t, us ++ [c], ?_, List.forall_mem_cons.2 ⟨ho, hopens⟩, hstart⟩
    simp
  | unary _ _ ht | conditional _ _ _ _ _ _ ht | function _ _ _ _ _ ht =>
    cases hf
    exact ⟨[], _, _, ht, List.forall_mem_nil _, rfl⟩
  | integer | identifier | truth | falsehood =>
    cases hf
    exact ⟨[], _, _, rfl, List.forall_mem_nil _, rfl⟩
  | _ => cases hf

/-- Tokens that end with the same ones stop at the same offset. -/
theorem stopOf_append_cons (ts : List Token) (t : Token) (us : List Token) :
    stopOf (ts ++ t :: us) = stopOf (t :: us) := by
  simp [stopOf, List.getLast?_append, List.getLast?_cons]

/-- Of tokens that stand side by side in a text, the first one starts first. -/
theorem start_le_of_mem (hsize : source.utf8ByteSize ≤ Span.limit)
    (hi : t :: us <:+: (Scanner.ofString source).drain.ahead) :
    ∀ u ∈ t :: us, t.span.start ≤ u.span.start := by
  have hall := List.pairwise_append.1 (tokenize_starts hsize)
  have hstarts := List.pairwise_cons.1 (hall.1.sublist hi.sublist)
  exact List.forall_mem_cons.2 ⟨Nat.le_refl _, fun u hu => Nat.le_of_lt (hstarts.1 u hu)⟩

theorem start_le_stopOf (hsize : source.utf8ByteSize ≤ Span.limit)
    (hi : t :: us <:+: (Scanner.ofString source).drain.ahead) :
    t.span.start ≤ stopOf (t :: us) := by
  obtain ⟨init, last, hlast⟩ : ∃ init last, t :: us = init ++ [last] :=
    ⟨_, _, (List.dropLast_concat_getLast (List.cons_ne_nil t us)).symm⟩
  have hmem : last ∈ t :: us := by simp [hlast]
  have hstart := start_le_of_mem hsize hi last hmem
  have hinside := ((drain_ofString_placed hsize).inside last (hi.subset hmem)).2.1
  have hstop : stopOf (t :: us) = last.span.stop := by
    rw [hlast, stopOf_append_cons]
    rfl
  omega

/-- A text is read without a fault as a single expression, but for how far on that stands. -/
def Expr.ReadFrom (e : Expr) (part : String) (offset : Nat) (recovery : Recovery) : Prop :=
  (read part recovery).diagnostics = [] ∧ ∃ t e' p,
    (read part recovery).program.body = [.expression t e' p] ∧
      e'.mapSpan (.displace (· + offset)) = e

/-- What becomes a single expression when its spans are changed was one before. -/
theorem Stmt.eq_of_mapSpanAll {g : Span → Span} {p : Span} {ss : List Stmt}
    (h : Stmt.mapSpanAll g ss = [.expression t e p]) :
    ∃ t' e' p', ss = [.expression t' e' p'] ∧ e'.mapSpan g = e := by
  match ss with
  | [] => cases h
  | _ :: _ :: _ => cases (List.cons.inj h).2
  | [st] =>
    have hst := (List.cons.inj h).1
    cases st with
    | expression t' e' p' => exact ⟨t', e', p', rfl, (Stmt.expression.inj hst).2.1⟩
    | _ => cases hst

/-- The slice of tokens that stand side by side: it is read as the expression that they spell, if they
spell one. -/
theorem slice_of_tokens (hsize : source.utf8ByteSize ≤ Span.limit)
    (hi : t :: us <:+: (Scanner.ofString source).drain.ahead) :
    ∃ part, Span.slice? ⟨t.span.start, stopOf (t :: us)⟩ source = some part ∧
      surplus (tokenize part) = surplus (t :: us) ∧
        ∀ {e recovery}, Derives (.expression .lowest e) (t :: us) →
          e.ReadFrom part t.span.start recovery := by
  obtain ⟨part, hpart, htokens⟩ := slice_of_infix hsize hi
  rw [Span.over, Nat.max_eq_left (start_le_stopOf hsize hi)] at hpart
  refine ⟨part, hpart, ?_, fun hd => ?_⟩
  · rw [← surplus_map_mapSpan, htokens, surplus_append]
    exact Int.add_zero _
  · have hstatement := Derives.unended hd .statementsEnd unextended_nil
    rw [List.append_nil] at hstatement
    obtain ⟨hquiet, hbody⟩ := read_of_shifted htokens hstatement _
    exact ⟨hquiet, Stmt.eq_of_mapSpanAll hbody⟩

/-- What is read without a fault has as many parentheses that close as open. -/
theorem surplus_tokenize {recovery : Recovery} (h : (read source recovery).diagnostics = []) :
    surplus (tokenize source) = 0 := by
  unfold tokenize TokenStream.toList
  rw [surplus_append, (derives_of_read h).1.surplus_eq_zero]
  rfl

/-- The name that a token spells is an expression by itself. -/
theorem spelledIn_ofToken (h : t.kind = .identifier) (hmem : t ∈ ts) :
    (Node.expr (.symbol (.ofToken t))).SpelledIn ts := by
  obtain ⟨front, behind, rfl⟩ := List.append_of_mem hmem
  exact ((Derives.identifier h).spelledWhole ⟨_, rfl, fun _ => rfl⟩).mono ⟨front, behind, by simp⟩

/-- The parameters of a function are names of tokens among those that spell them. -/
theorem Derives.spelledIn_parameters {ps : List Symbol} (h : Derives (.parameters ps) ts) :
    ∀ s ∈ ps, (Node.expr (.symbol s)).SpelledIn ts := by
  generalize hf : Form.parameters ps = f at h
  induction h generalizing ps with
  | parametersEnd =>
    cases hf
    exact List.forall_mem_nil _
  | @parameter ts t ps h _ ih =>
    cases hf
    have hts : ts <:+: t :: ts := (List.suffix_cons t ts).isInfix
    exact List.forall_mem_cons.2
      ⟨spelledIn_ofToken h (List.mem_cons_self ..), fun s hs => (ih rfl s hs).mono hts⟩
  | @parameterComma ts t c ps h _ _ ih =>
    cases hf
    have hts : ts <:+: t :: c :: ts := (List.suffix_append [t, c] ts).isInfix
    exact List.forall_mem_cons.2
      ⟨spelledIn_ofToken h (List.mem_cons_self ..), fun s hs => (ih rfl s hs).mono hts⟩
  | _ => cases hf

/-- Where a node is spelled, so is each expression that it is or names. -/
theorem Node.SpelledIn.expressions (h : n.SpelledIn ts) :
    ∀ e ∈ n.expressions, (Node.expr e).SpelledIn ts := by
  cases n with
  | expr e =>
    cases e with
    | function t ps b p =>
      obtain ⟨us, hus, hd, hstop⟩ := h
      obtain ⟨vs, hvs, hp⟩ := hd.listedIn
      refine List.forall_mem_cons.2 ⟨⟨us, hus, hd, hstop⟩, List.forall_mem_map.2 fun s hs => ?_⟩
      exact (hp.spelledIn_parameters s hs).mono (hvs.trans hus)
    | _ => exact List.forall_mem_singleton.2 h
  | stmt st =>
    cases st with
    | binding t s v p =>
      obtain ⟨us, hus, hd⟩ := h
      refine List.forall_mem_singleton.2 (Node.SpelledIn.mono ?_ hus)
      cases hd with
      | statement hs _ =>
        cases hs with
        | binding _ hi _ _ _ ht => exact spelledIn_ofToken hi (by simp [ht])
    | _ => exact List.forall_mem_nil _
  | block b => exact List.forall_mem_nil _

/-- The tokens that spell an expression of a text without faults: its span reaches from behind the
first parentheses that open to the last token. -/
theorem exists_tokens_of_expression (hsize : source.utf8ByteSize ≤ Span.limit) {recovery : Recovery}
    (hquiet : (read source recovery).diagnostics = [])
    (he : e ∈ (read source recovery).program.expressions) :
    ∃ opens t us, opens ++ t :: us <:+: (Scanner.ofString source).drain.ahead ∧
      Derives (.expression .lowest e) (opens ++ t :: us) ∧ (∀ o ∈ opens, o.kind = .openParen) ∧
        e.span? = some ⟨t.span.start, stopOf (t :: us)⟩ := by
  obtain ⟨n, hn, he⟩ := List.mem_flatMap.1 he
  obtain ⟨ts, hi, hd, p, hp, hstop⟩ := ((derives_of_read hquiet).1.spells n hn).expressions e he
  obtain ⟨opens, t, us, rfl, hopens, hstart⟩ := hd.starts
  refine ⟨opens, t, us, hi, hd, hopens, ?_⟩
  have hpstart : p.start = t.span.start := by
    rw [← hstart, Expr.start, hp]
    rfl
  have hle : t.span.start ≤ stopOf (t :: us) :=
    start_le_stopOf hsize ((List.suffix_append opens _).isInfix.trans hi)
  rw [stopOf_append_cons, hpstart] at hstop
  rw [hp, ← hpstart, ← hstop hle]

/-- **An expression is read by itself as in the whole text exactly if the parentheses at its span
pair up.** In a text without faults, whatever expression it holds, be it a node or a name: the text at
its span is read as that expression and nothing else, but for how far on it stands, if and only if as
many parentheses close in that text as open. In any case some text that stops where the expression
does is read so, but it may start in front of it. -/
theorem read_expression_iff {recovery : Recovery} (hsize : source.utf8ByteSize ≤ Span.limit)
    (hquiet : (read source recovery).diagnostics = [])
    (he : e ∈ (read source recovery).program.expressions) (other : Recovery) :
    ∃ p part, e.span? = some p ∧ p.slice? source = some part ∧
      (e.ReadFrom part p.start other ↔ surplus (tokenize part) = 0) ∧
      ∃ start whole, start ≤ p.start ∧ Span.slice? ⟨start, p.stop⟩ source = some whole ∧
        e.ReadFrom whole start other := by
  obtain ⟨opens, t, us, hi, hd, hopens, hspan⟩ := exists_tokens_of_expression hsize hquiet he
  have hbehind : t :: us <:+: (Scanner.ofString source).drain.ahead :=
    (List.suffix_append opens _).isInfix.trans hi
  obtain ⟨part, hpart, hsurplus, hread⟩ := slice_of_tokens hsize hbehind
  refine ⟨_, part, hspan, hpart, ?_⟩
  cases opens with
  | nil =>
    -- nothing is left out: the slice is the text that spells the expression
    have hpaired : surplus (tokenize part) = 0 := hsurplus.trans hd.surplus_eq_zero
    exact ⟨⟨fun _ => hpaired, fun _ => hread hd⟩, _, part, Nat.le_refl _, hpart, hread hd⟩
  | cons o opens =>
    have hall := hd.surplus_eq_zero
    rw [surplus_append, surplus_of_opens hopens, List.length_cons] at hall
    have hne : surplus (tokenize part) ≠ 0 := by omega
    rw [List.cons_append] at hi hd
    obtain ⟨whole, hwhole, -, hreadWhole⟩ := slice_of_tokens hsize hi
    rw [← List.cons_append, stopOf_append_cons] at hwhole
    exact ⟨⟨fun h => surplus_tokenize h.1, fun h => absurd h hne⟩, _, whole,
      start_le_of_mem hsize hi t (by simp), hwhole, hreadWhole hd⟩

/-- The operands of a sum, one behind a sign, stand in parentheses; its span holds all of them. -/
theorem read_expression_sum :
    "let x = -(a) + (b);".utf8ByteSize ≤ Span.limit ∧
      (read "let x = -(a) + (b);" .synchronize).diagnostics = [] ∧
      ∃ e ∈ (read "let x = -(a) + (b);" .synchronize).program.expressions,
        e.span? = some ⟨8, 18⟩ ∧ e.ReadFrom "-(a) + (b)" 8 .lenient := by
  have hsize : "let x = -(a) + (b);".utf8ByteSize ≤ Span.limit := by decide +kernel
  have hquiet : (read "let x = -(a) + (b);" .synchronize).diagnostics = [] := by decide +kernel
  have hany : ((read "let x = -(a) + (b);" .synchronize).program.expressions.any
      (·.span? = some ⟨8, 18⟩)) = true := by decide +kernel
  obtain ⟨e, hmem, he⟩ := List.any_eq_true.1 hany
  have hspan := of_decide_eq_true he
  have hslice : Span.slice? ⟨8, 18⟩ "let x = -(a) + (b);" = some "-(a) + (b)" := by decide +kernel
  have hpaired : surplus (tokenize "-(a) + (b)") = 0 := by decide +kernel
  obtain ⟨p, part, hp, hpart, hiff, -⟩ := read_expression_iff hsize hquiet hmem .lenient
  obtain rfl := Option.some.inj (hp.symm.trans hspan)
  obtain rfl := Option.some.inj (hpart.symm.trans hslice)
  exact ⟨hsize, hquiet, e, hmem, hspan, hiff.2 hpaired⟩

/-- The left operand of a product stands in parentheses: the span of the product holds the one that
closes, but not the one that opens. -/
theorem read_expression_cut :
    (read "(1 + 2) * 3;" .synchronize).diagnostics = [] ∧
      (∃ e ∈ (read "(1 + 2) * 3;" .synchronize).program.expressions, e.span? = some ⟨1, 11⟩) ∧
      Span.slice? ⟨1, 11⟩ "(1 + 2) * 3;" = some "1 + 2) * 3" ∧
      ∀ recovery, (read "1 + 2) * 3" recovery).diagnostics ≠ [] := by
  have hany : ((read "(1 + 2) * 3;" .synchronize).program.expressions.any
      (·.span? = some ⟨1, 11⟩)) = true := by decide +kernel
  obtain ⟨e, hmem, he⟩ := List.any_eq_true.1 hany
  refine ⟨by decide +kernel, ⟨e, hmem, of_decide_eq_true he⟩, by decide +kernel, fun recovery => ?_⟩
  cases recovery <;> decide +kernel

end Monkey

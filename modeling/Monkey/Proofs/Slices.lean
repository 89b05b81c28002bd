import Monkey.Proofs.GrammarSound
import Monkey.Proofs.Seams

/-!
# A statement by itself

In a text without faults each statement and each expression, however deep it stands, is spelled by
tokens that stand side by side (`Derives.spells`). The text at the span of a statement is cut out of
the whole, and so is split into these tokens (`slice_of_infix`). Nothing in front of a statement or
behind it is needed to read it, so the slice is read as that statement and nothing else. Main
statement: `read_slice`.
-/

namespace Monkey

open Descent

namespace Span

/-- The text that stands at a span, if the span starts and stops between two characters. -/
def slice? (p : Span) (source : String) : Option String :=
  if p.start ≤ p.stop then
    (Text.dropWidth? p.start source.toList).bind fun rest =>
      (Text.dropWidth? p.length rest).map fun behind =>
        String.ofList (rest.take (rest.length - behind.length))
  else none

/-- A slice is what stands between two parts of a text. -/
theorem slice?_eq_some_iff {p : Span} {source part : String} :
    p.slice? source = some part ↔ p.start ≤ p.stop ∧ ∃ front behind,
      Text.width front = p.start ∧ Text.width part.toList = p.length ∧
        source.toList = front ++ (part.toList ++ behind) := by
  unfold slice?
  split
  · next hle =>
    simp only [Option.bind_eq_some_iff, Option.map_eq_some_iff, Text.dropWidth?_eq_some_iff]
    constructor
    · rintro ⟨rest, ⟨front, hfront, hsource⟩, behind, ⟨middle, hmiddle, rfl⟩, rfl⟩
      have hpart : (middle ++ behind).take ((middle ++ behind).length - behind.length) = middle := by
        rw [List.length_append, Nat.add_sub_cancel, List.take_left]
      rw [hpart, String.toList_ofList]
      exact ⟨hle, front, behind, hfront, hmiddle, hsource⟩
    · rintro ⟨-, front, behind, hfront, hpart, hsource⟩
      refine ⟨part.toList ++ behind, ⟨front, hfront, hsource⟩, behind, ⟨part.toList, hpart, rfl⟩, ?_⟩
      rw [List.length_append, Nat.add_sub_cancel, List.take_left, String.ofList_toList]
  · next hle => simp [hle]

end Span

variable {f : Form} {ts us vs : List Token} {t : Token} {n : Node} {st : Stmt} {source : String}

/-- The nodes of a form. -/
def Form.nodes : Form → List Node
  | .expression _ e => e.nodes
  | .parameters _ => []
  | .arguments es => Expr.nodesAll es
  | .block b => b.nodes
  | .alternative none => []
  | .alternative (some b) => b.nodes
  | .statement s => s.nodes
  | .statements ss => Stmt.nodesAll ss

/-- The span of an expression stops with the last of some tokens, unless it starts behind them. -/
def Expr.StopsWith (e : Expr) (ts : List Token) : Prop :=
  ∃ p, e.span? = some p ∧ (p.start ≤ stopOf ts → p.stop = stopOf ts)

theorem Expr.stopsWith_over {e : Expr} {start : Nat} (h : e.span? = some (.over start ts)) :
    e.StopsWith ts :=
  ⟨_, h, fun hle => Nat.max_eq_left hle⟩

/-- Among the tokens, those that spell the node stand side by side, be it a statement or an
expression. -/
def Node.SpelledIn (ts : List Token) : Node → Prop
  | .stmt st => ∃ us, us <:+: ts ∧ Derives (.statements [st]) us
  | .expr e => ∃ us, us <:+: ts ∧ Derives (.expression .lowest e) us ∧ e.StopsWith us
  | .block _ => True

theorem Node.SpelledIn.mono (h : n.SpelledIn us) (hi : us <:+: ts) : n.SpelledIn ts := by
  cases n with
  | stmt st =>
    obtain ⟨vs, hvs, hd⟩ := h
    exact ⟨vs, hvs.trans hi, hd⟩
  | expr e =>
    obtain ⟨vs, hvs, hd⟩ := h
    exact ⟨vs, hvs.trans hi, hd⟩
  | block _ => trivial

/-- All statements and expressions of a form are spelled among the tokens. -/
def Form.Spells (f : Form) (ts : List Token) : Prop := ∀ n ∈ f.nodes, n.SpelledIn ts

theorem Form.Spells.mono (h : f.Spells us) (hi : us <:+: ts) : f.Spells ts :=
  fun n hn => (h n hn).mono hi

/-- A statement that ends by itself is spelled by its own tokens. -/
theorem Derives.spelledIn (h : Derives (.statement st) ts) : (Node.stmt st).SpelledIn ts := by
  have hi : ts ++ [] <:+: ts := ⟨[], [], by simp⟩
  exact ⟨ts ++ [], hi, .statement h .statementsEnd⟩

/-- An expression is spelled by its own tokens, if its span stops with them. -/
theorem Derives.spelledWhole {level : Power} {e : Expr} (h : Derives (.expression level e) ts)
    (he : e.StopsWith ts) : (Node.expr e).SpelledIn ts :=
  ⟨ts, List.infix_refl ts, h.of_le (Power.lowest_le level), he⟩

/-- **Every statement and every expression in a form is spelled by tokens that stand side by side.** -/
theorem Derives.spells (h : Derives f ts) : f.Spells ts := by
  induction h with
  | tighter _ _ ih => exact ih
  | @binary ts ls rs _ _ op l r ho hlt hl hr ht ihl ihr =>
    have hls : ls <:+: ts := ⟨[], op :: rs, by simp [ht]⟩
    have hrs : rs <:+: ts := ⟨ls ++ [op], [], by simp [ht]⟩
    have hself := (Derives.binary ho hlt hl hr ht).spelledWhole (Expr.stopsWith_over rfl)
    simp only [Form.Spells, Form.nodes, Expr.nodes, List.forall_mem_cons, List.forall_mem_append]
    exact ⟨hself, ihl.mono hls, ihr.mono hrs⟩
  | @unary ts es op e ho he ht ih =>
    have hes : es <:+: ts := ⟨[op], [], by simp [ht]⟩
    have hself := (Derives.unary ho he ht).spelledWhole (Expr.stopsWith_over rfl)
    simp only [Form.Spells, Form.nodes, Expr.nodes, List.forall_mem_cons]
    exact ⟨hself, ih.mono hes⟩
  | @call ts fs as o c _ _ ho hc hf ha ht ihf iha =>
    have hfs : fs <:+: ts := ⟨[], o :: as ++ [c], by simp [ht]⟩
    have has : as <:+: ts := ⟨fs ++ [o], [c], by simp [ht]⟩
    have hself := (Derives.call ho hc hf ha ht).spelledWhole (Expr.stopsWith_over rfl)
    simp only [Form.Spells, Form.nodes, Expr.nodes, List.forall_mem_cons, List.forall_mem_append]
    exact ⟨hself, ihf.mono hfs, iha.mono has⟩
  | @group es o c _ _ _ _ ih => exact ih.mono ⟨[o], [c], by simp⟩
  | @conditional ts cs bs as i o c e b a hi ho hc he hb ha ht ihe ihb iha =>
    have hcs : cs <:+: ts := ⟨[i, o], c :: (bs ++ as), by simp [ht]⟩
    have hbs : bs <:+: ts := ⟨i :: o :: cs ++ [c], as, by simp [ht]⟩
    have has : as <:+: ts := ⟨i :: o :: cs ++ c :: bs, [], by simp [ht]⟩
    have hself :=
      (Derives.conditional hi ho hc he hb ha ht).spelledWhole (Expr.stopsWith_over rfl)
    cases a with
    | none =>
      simp only [Form.Spells, Form.nodes, Expr.nodes, List.forall_mem_cons, List.forall_mem_append]
      exact ⟨hself, ihe.mono hcs, ihb.mono hbs⟩
    | some a =>
      simp only [Form.Spells, Form.nodes, Expr.nodes, List.forall_mem_cons, List.forall_mem_append]
      exact ⟨hself, ⟨ihe.mono hcs, ihb.mono hbs⟩, iha.mono has⟩
  | @function ts ps bs f o c _ _ hf ho hc hp hb ht _ ihb =>
    have hbs : bs <:+: ts := ⟨f :: o :: ps ++ [c], [], by simp [ht]⟩
    have hself := (Derives.function hf ho hc hp hb ht).spelledWhole (Expr.stopsWith_over rfl)
    simp only [Form.Spells, Form.nodes, Expr.nodes, List.forall_mem_cons]
    exact ⟨hself, ihb.mono hbs⟩
  | comma _ _ ih => exact ih.mono (List.suffix_cons _ _).isInfix
  | @argument ts us _ _ _ _ _ ihe iha =>
    simp only [Form.Spells, Form.nodes, Expr.nodesAll, List.forall_mem_append]
    exact ⟨ihe.mono (List.prefix_append ts us).isInfix, iha.mono (List.suffix_append ts us).isInfix⟩
  | @block ts us o c ss _ _ _ ht ih =>
    have hs : us <:+: ts := ⟨[o], [c], by simp [ht]⟩
    simp only [Form.Spells, Form.nodes, Block.nodes, List.forall_mem_cons]
    exact ⟨trivial, ih.mono hs⟩
  | alternative _ _ ih => exact ih.mono (List.suffix_cons _ _).isInfix
  | @binding ts es l i a c e hl hi ha hc he ht ih =>
    have hv : es <:+: ts := ⟨[l, i, a], [c], by simp [ht]⟩
    simp only [Form.Spells, Form.nodes, Stmt.nodes, List.forall_mem_cons]
    exact ⟨(Derives.binding hl hi ha hc he ht).spelledIn, ih.mono hv⟩
  | returningNothing hr hc ht =>
    simp only [Form.Spells, Form.nodes, Stmt.nodes, Expr.nodes, List.forall_mem_cons]
    exact ⟨(Derives.returningNothing hr hc ht).spelledIn, List.forall_mem_nil _⟩
  | @returning ts es r c e hr hc he ht ih =>
    have hv : es <:+: ts := ⟨[r], [c], by simp [ht]⟩
    simp only [Form.Spells, Form.nodes, Stmt.nodes, List.forall_mem_cons]
    exact ⟨(Derives.returning hr hc he ht).spelledIn, ih.mono hv⟩
  | blockStatement hb ih =>
    simp only [Form.Spells, Form.nodes, Stmt.nodes, List.forall_mem_cons]
    exact ⟨(Derives.blockStatement hb).spelledIn, ih⟩
  | @ended ts es t c e hc he ht ih =>
    have hv : t :: es <:+: ts := ⟨[], [c], by simp [ht]⟩
    simp only [Form.Spells, Form.nodes, Stmt.nodes, List.forall_mem_cons]
    exact ⟨(Derives.ended hc he ht).spelledIn, ih.mono hv⟩
  | @statement ts us _ _ _ _ ihs ihss =>
    simp only [Form.Spells, Form.nodes, Stmt.nodesAll, List.forall_mem_append]
    exact ⟨ihs.mono (List.prefix_append ts us).isInfix, ihss.mono (List.suffix_append ts us).isInfix⟩
  | @unended ts us t e ss he _ _ ih ihss =>
    have hv : t :: ts <:+: t :: ts ++ us := (List.prefix_append (t :: ts) us).isInfix
    have hself : (Node.stmt (.expression t e (.over t.span.start (t :: ts)))).SpelledIn
        (t :: ts ++ us) := by
      refine ⟨t :: ts ++ [], ?_, .unended he .statementsEnd unextended_nil⟩
      rw [List.append_nil]
      exact hv
    simp only [Form.Spells, Form.nodes, Stmt.nodesAll, Stmt.nodes, List.forall_mem_append,
      List.forall_mem_cons]
    exact ⟨⟨hself, ih.mono hv⟩, ihss.mono (List.suffix_append (t :: ts) us).isInfix⟩
  | integer h hn =>
    exact List.forall_mem_singleton.2 ((Derives.integer h hn).spelledWhole ⟨_, rfl, fun _ => rfl⟩)
  | identifier h =>
    exact List.forall_mem_singleton.2 ((Derives.identifier h).spelledWhole ⟨_, rfl, fun _ => rfl⟩)
  | truth h =>
    exact List.forall_mem_singleton.2 ((Derives.truth h).spelledWhole ⟨_, rfl, fun _ => rfl⟩)
  | falsehood h =>
    exact List.forall_mem_singleton.2 ((Derives.falsehood h).spelledWhole ⟨_, rfl, fun _ => rfl⟩)
  | _ => exact List.forall_mem_nil _

/-- The span of a statement is that over the tokens that spell it. -/
theorem Derives.span_statement (h : Derives (.statements [st]) ts) :
    ∃ t us, ts = t :: us ∧ st.span = .over t.span.start ts := by
  cases h with
  | @statement ts us _ _ hs hss =>
    cases hss
    rw [List.append_nil]
    cases hs with
    | binding _ _ _ _ _ ht => exact ⟨_, _, ht, rfl⟩
    | returningNothing _ _ ht => exact ⟨_, _, ht, rfl⟩
    | returning _ _ _ ht => exact ⟨_, _, ht, rfl⟩
    | blockStatement hb =>
      cases hb with
      | block _ _ _ ht => exact ⟨_, _, ht, rfl⟩
    | ended _ _ ht => exact ⟨_, _, ht, rfl⟩
  | unended _ hss =>
    cases hss
    rw [List.append_nil]
    exact ⟨_, _, rfl, rfl⟩

/-- **Tokens that stand side by side are those of a slice**, but for how far on they stand. -/
theorem slice_of_infix (hsize : source.utf8ByteSize ≤ Span.limit)
    (hi : t :: us <:+: (Scanner.ofString source).drain.ahead) :
    ∃ part, (Span.over t.span.start (t :: us)).slice? source = some part ∧
      (tokenize part).map (Token.mapSpan (.displace (· + t.span.start))) =
        t :: us ++ [.ending (stopOf (t :: us))] := by
  obtain ⟨before, after, hahead⟩ := hi
  have hkinds : ∀ u ∈ before ++ t :: us ++ after, u.kind ≠ .eof :=
    hahead ▸ fun _ => Scanner.kind_ne_eof_of_mem_drain
  obtain ⟨rest, hsource, -⟩ := Text.beforeZero_rest source.toList
  have hlimit : 0 + Text.width (Text.beforeZero source.toList) ≤ Span.limit := by
    rw [← Text.width_toList, hsource, Text.width_append] at hsize
    omega
  -- the text is cut in front of the first token, and what is left of it behind the last one
  have hsplits := splits_tokenize source
  unfold tokenize TokenStream.toList at hsplits
  rw [← hahead, List.append_assoc, List.append_assoc, List.cons_append] at hsplits
  obtain ⟨front, remainder, hfront, hstart, hsplits⟩ :=
    hsplits.cutFront (hkinds t (by simp)) hlimit
  obtain ⟨init, last, hlast⟩ : ∃ init last, t :: us = init ++ [last] :=
    ⟨_, _, (List.dropLast_concat_getLast (List.cons_ne_nil t us)).symm⟩
  rw [← List.cons_append, hlast, List.append_assoc, List.singleton_append] at hsplits
  rw [hfront, Text.width_append] at hlimit
  obtain ⟨middle, behind, rfl, hstop, hsplits⟩ :=
    hsplits.cutBehind (hkinds last (by simp [hlast])) (by omega)
  rw [Text.width_append] at hlimit
  have hover : stopOf (t :: us) = t.span.start + Text.width middle := by
    rw [stopOf, hlast, List.getLast?_concat, hstart]
    exact hstop
  refine ⟨String.ofList middle, ?_, ?_⟩
  · rw [Span.slice?_eq_some_iff, String.toList_ofList, Span.length, Span.over, hover]
    refine ⟨Nat.le_max_right _ _, front, behind ++ rest, ?_, ?_, ?_⟩
    · rw [hstart, Nat.zero_add]
    · rw [Nat.max_eq_left (Nat.le_add_right _ _), Nat.add_sub_cancel_left]
    · rw [hsource, hfront]
      simp
  · have hread : Text.beforeZero (String.ofList middle).toList = middle := by
      rw [String.toList_ofList]
      apply Text.beforeZero_eq_self
      intro c hc
      have hmem : c ∈ Text.beforeZero source.toList := by
        rw [hfront]
        simp [hc]
      exact Text.ne_zero_of_mem_beforeZero hmem
    have hpart := splits_tokenize (String.ofList middle)
    rw [hread] at hpart
    have hmoved := hpart.shift (n := t.span.start) (by omega)
    rw [Nat.zero_add, hstart] at hmoved
    rw [hover, hstart, hsplits.unique hmoved, hlast, List.append_assoc]
    rfl

/-- A text whose tokens, once moved, spell statements is read as these without a fault, but for how
far on they stand. -/
theorem read_of_shifted {part : String} {m stop : Nat} {ss : List Stmt}
    (htokens : (tokenize part).map (Token.mapSpan (.displace (· + m))) = ts ++ [.ending stop])
    (hd : Derives (.statements ss) ts) (recovery : Recovery) :
    (read part recovery).diagnostics = [] ∧
      Stmt.mapSpanAll (.displace (· + m)) (read part recovery).program.body = ss := by
  unfold tokenize TokenStream.toList at htokens
  rw [List.map_append] at htokens
  obtain ⟨hahead, hfinal⟩ := List.append_inj' htokens rfl
  have hfrom : (State.start (Scanner.ofString part).drain).Displaced (· + m)
      (.start ⟨ts, stop⟩) :=
    ⟨hahead.symm, (List.singleton_inj.1 hfinal).symm, rfl, .inl rfl⟩
  -- the statements are read from the moved tokens, and so is what is read of the text, once moved
  have hall : (State.start ⟨ts, stop⟩).stream.ahead = ts ++ [] := (List.append_nil ts).symm
  obtain ⟨s₁, ht, hs₁⟩ := Takes.exists_of_ahead hall
  have hkind : s₁.kind = .eof := by
    rw [State.kind, ht.current_of_nil hs₁]
    rfl
  have hwhole := topRun_of_statements recovery (hd.reads ht (by rw [hkind]; rfl)) hkind ht.log
  have hmono : Monotone (· + m) := fun _ _ h => Nat.add_le_add_right h _
  obtain ⟨r', hrun, hdiagnostics⟩ := read_displaced hmono hfrom recovery
  obtain ⟨hbody, rfl⟩ := hwhole.unique hrun
  refine ⟨?_, hbody⟩
  rw [State.diagnostics, ht.log] at hdiagnostics
  exact List.map_eq_nil_iff.1 hdiagnostics.symm

/-- **A statement is read by itself as in the whole text.** In a text without faults, whatever
statement it holds: the text at the span of the statement has no faults either, and is read as that
statement and nothing else, but for how far on it stands. -/
theorem read_slice {recovery : Recovery} (hsize : source.utf8ByteSize ≤ Span.limit)
    (hquiet : (read source recovery).diagnostics = [])
    (hst : .stmt st ∈ (read source recovery).program.nodes) (other : Recovery) :
    ∃ part st', st.span.slice? source = some part ∧ (read part other).diagnostics = [] ∧
      (read part other).program.body = [st'] ∧
        st'.mapSpan (.displace (· + st.span.start)) = st := by
  obtain ⟨vs, hi, hd⟩ := (derives_of_read hquiet).1.spells _ hst
  obtain ⟨t, us, rfl, hspan⟩ := hd.span_statement
  obtain ⟨part, hpart, htokens⟩ := slice_of_infix hsize hi
  have hstart : st.span.start = t.span.start := by rw [hspan, Span.over]
  rw [← hspan] at hpart
  rw [← hstart] at htokens
  obtain ⟨hnone, hbody⟩ := read_of_shifted htokens hd other
  cases hread : (read part other).program.body with
  | nil =>
    rw [hread] at hbody
    cases hbody
  | cons st' rest =>
    rw [hread] at hbody
    obtain ⟨hst', hrest⟩ := List.cons.inj hbody
    cases rest with
    | nil => exact ⟨part, st', hpart, hnone, hread, hst'⟩
    | cons _ _ => cases hrest

/-- The value that a function returns stands in a block, in a function and in the value of a name. -/
theorem read_slice_returned :
    "let f = fn(x) \x7b return x; \x7d;".utf8ByteSize ≤ Span.limit ∧
      (read "let f = fn(x) \x7b return x; \x7d;" .synchronize).diagnostics = [] ∧
      ∃ st, .stmt st ∈ (read "let f = fn(x) \x7b return x; \x7d;" .synchronize).program.nodes ∧
        st.span.slice? "let f = fn(x) \x7b return x; \x7d;" = some "return x;" ∧
        ∃ st', (read "return x;" .lenient).program.body = [st'] ∧
          st'.mapSpan (.displace (· + 16)) = st := by
  have hsize : "let f = fn(x) \x7b return x; \x7d;".utf8ByteSize ≤ Span.limit := by decide +kernel
  have hquiet : (read "let f = fn(x) \x7b return x; \x7d;" .synchronize).diagnostics = [] := by
    decide +kernel
  have hany : ((read "let f = fn(x) \x7b return x; \x7d;" .synchronize).program.nodes.any fun
      | .stmt st => st.span = ⟨16, 25⟩
      | _ => false) = true := by decide +kernel
  obtain ⟨n, hmem, hn⟩ := List.any_eq_true.1 hany
  cases n with
  | stmt st =>
    have hspan : st.span = ⟨16, 25⟩ := of_decide_eq_true hn
    have htext : st.span.slice? "let f = fn(x) \x7b return x; \x7d;" = some "return x;" := by
      rw [hspan]
      decide +kernel
    obtain ⟨part, st', hpart, -, hbody, hst'⟩ := read_slice hsize hquiet hmem .lenient
    obtain rfl := Option.some.inj (hpart.symm.trans htext)
    rw [hspan] at hst'
    exact ⟨hsize, hquiet, st, hmem, htext, st', hbody, hst'⟩
  | _ => cases hn

end Monkey

import Monkey.Proofs.Conservation
import Monkey.Proofs.Portions
import Monkey.Proofs.Termination

/-!
# Portions tile a text

The portions of a text stand one behind the other and leave out no token in front of its end
(`portions_tile`). The span of a statement is that of the tokens that are taken for it
(`Run.span_taken`). What is skipped behind a statement is told by how it was read: nothing if it has
no fault or has come to an end, and otherwise all tokens through the next one that ends a statement
(`Run.skipped`).
-/

namespace Monkey

open Descent

/-- The tokens through the first one that ends a statement, or all of them if none does. -/
def throughEnd : List Token → List Token
  | [] => []
  | t :: ts => if endsStatement t.kind then [t] else t :: throughEnd ts

namespace Portion

/-- Whether the last token that is taken for the statement ends statements. -/
def hasEnd (p : Portion) : Bool := p.taken.getLast?.any fun t => endsStatement t.kind

/-- How a portion lies in a text, with the tokens that follow those of its statement. -/
structure Tiles (p : Portion) (recovery : Recovery) (following : List Token) : Prop where
  /-- The statement reaches from the first token that is taken for it to the last one. -/
  span : ∃ first last, p.taken.head? = some first ∧ p.taken.getLast? = some last ∧
    p.statement.span = ⟨first.span.start, last.span.stop⟩
  /-- Behind a statement with a fault that has no end, what follows is skipped through an end. -/
  skipped : p.skipped = if recovery = .synchronize ∧ p.noted ≠ [] ∧ p.hasEnd = false then
    throughEnd following else []

end Portion

/-- Tokens as they stand in a text in front of its end. -/
structure Laid (ts : List Token) : Prop where
  ordered : ts.Pairwise fun a b => a.span.start < b.span.start
  solid : ∀ t ∈ ts, t.span.start < t.span.stop ∧ t.kind ≠ .eof

namespace Laid

variable {first last : Token} {ts us : List Token}

theorem left (h : Laid (ts ++ us)) : Laid ts :=
  ⟨(List.pairwise_append.1 h.ordered).1, fun t ht => h.solid t (List.mem_append_left _ ht)⟩

theorem right (h : Laid (ts ++ us)) : Laid us :=
  ⟨(List.pairwise_append.1 h.ordered).2.1, fun t ht => h.solid t (List.mem_append_right _ ht)⟩

/-- The first of the tokens starts in front of where any of them stops. -/
theorem start_le_stop (h : Laid (first :: ts)) (hlast : last ∈ first :: ts) :
    first.span.start ≤ last.span.stop := by
  have hsolid := (h.solid last hlast).1
  rcases List.mem_cons.1 hlast with rfl | hlast
  · exact Nat.le_of_lt hsolid
  · have hstart := (List.pairwise_cons.1 h.ordered).1 last hlast
    omega

end Laid

namespace Descent

variable {t : Table} {s s₁ s₂ s' : State} {recovery : Recovery} {st : Stmt} {ps : List Portion}

/-- The span of a statement reaches from the current token to what is taken last. -/
theorem Run.span_statement (h : Run t (.statement st) s s') :
    st.span = s'.spanFrom s.current.span.start := by
  cases h with
  | statement h =>
    generalize (t.statementRule s.kind).getD .expression = rule at h
    cases h with
    | binding => rfl
    | returning => rfl
    | ruledBlock hb =>
      cases hb
      rfl
    | bare => rfl

/-- For a statement a token is taken, unless the text is at its end. -/
theorem Run.takenTo_ne_nil (h : Run t (.statement st) s s') (hk : s.kind ≠ .eof) :
    s.takenTo s' ≠ [] := by
  have hpos := State.left_pos hk
  have hless : s'.left ≤ s.left - 1 := h.left_le
  have hleft : s.left = (s.takenTo s').length + s'.left := h.takes.left
  apply List.ne_nil_of_length_pos
  omega

/-- **The span of a statement** is that of the tokens that are taken for it. -/
theorem Run.span_taken (h : Run t (.statement st) s s') (hk : s.kind ≠ .eof)
    (hs : Laid s.stream.ahead) : ∃ first last, (s.takenTo s').head? = some first ∧
      (s.takenTo s').getLast? = some last ∧ st.span = ⟨first.span.start, last.span.stop⟩ := by
  have htakes := h.takes
  have hne := h.takenTo_ne_nil hk
  have hspan : st.span = .over s.current.span.start (s.takenTo s') :=
    h.span_statement.trans (htakes.spanFrom_over hne _)
  rw [htakes.ahead] at hs
  cases htaken : s.takenTo s' with
  | nil => exact absurd htaken hne
  | cons first ts =>
    rw [htaken] at htakes hs hspan
    obtain ⟨hfirst, -⟩ := htakes.uncons
    have hlast := List.getLast?_eq_some_getLast (List.cons_ne_nil first ts)
    have hle := hs.left.start_le_stop (List.getLast_mem (List.cons_ne_nil first ts))
    refine ⟨first, _, rfl, hlast, ?_⟩
    rw [hspan, hfirst, Span.over, stopOf, hlast, Option.map_some, Option.getD_some,
      Nat.max_eq_left hle]

/-- A fault is noted exactly if more faults are noted than before. -/
theorem Run.notedTo_ne_nil_iff {p : Phrase} (h : Run t p s s') :
    s.notedTo s' ≠ [] ↔ s.log.length < s'.log.length := by
  have hlength := congrArg List.length h.diagnostics
  rw [List.length_append, State.diagnostics, State.diagnostics, List.length_reverse,
    List.length_reverse] at hlength
  rw [← List.length_pos_iff]
  omega

/-- Up to a token that ends a statement, and with that one, all tokens are skipped. -/
theorem skipStatement_takes (hs : ∀ t ∈ s.stream.ahead, t.kind ≠ .eof)
    (h : skipStatement s = some ((), s')) : Takes (throughEnd s.stream.ahead) s s' := by
  rw [skipStatement, bind_eq_some_iff] at h
  obtain ⟨us, s₁, hskip, hlast⟩ := h
  rw [take_bind] at hlast
  obtain ⟨-, rfl⟩ := Prod.mk.inj (Option.some.inj hlast)
  refine collect_induction (P := fun _ s s' => (∀ t ∈ s.stream.ahead, t.kind ≠ .eof) →
    Takes (throughEnd s.stream.ahead) s s'.advance) ?_ ?_ hskip hs
  · intro s hk hs
    cases ha : s.stream.ahead with
    | nil =>
      have hstays : s.advance = s := by
        unfold State.advance
        rw [ha]
      rw [hstays]
      exact .nil
    | cons t ts =>
      -- before the end of the text only a token that ends a statement stops the skipping
      have hends : endsStatement t.kind = true := by
        have hkind := hs t (ha ▸ List.mem_cons_self)
        simpa [State.kind_of_cons ha, hkind] using hk
      rw [throughEnd, if_pos hends]
      exact .cons ha .nil
  · intro s s₁ s' x us hk hx ih hs
    rw [skip_apply] at hx
    obtain ⟨-, rfl⟩ := Prod.mk.inj (Option.some.inj hx)
    obtain ⟨hends, hkind⟩ := Bool.or_eq_false_iff.1 hk
    have ha := State.ahead_of_kind (ne_of_beq_false hkind)
    have hrest : ∀ t ∈ s.advance.stream.ahead, t.kind ≠ .eof :=
      fun t ht => hs t (ha ▸ List.mem_cons_of_mem _ ht)
    have hgoes : endsStatement s.current.kind ≠ true := Bool.eq_false_iff.1 hends
    rw [ha, throughEnd, if_neg hgoes]
    exact .cons ha (ih hrest)

theorem State.takenTo_self (s : State) : s.takenTo s = [] := takenTo_of_takes .nil

/-- What is skipped is told by the faults and by what was taken last. -/
theorem takenTo_of_recover {before : Nat} (hs : ∀ t ∈ s.stream.ahead, t.kind ≠ .eof)
    (h : recover recovery before s = some ((), s')) :
    s.takenTo s' = if recovery = .synchronize ∧ before < s.log.length ∧
      (s.last.any fun t => endsStatement t.kind) = false then
        throughEnd s.stream.ahead else [] := by
  rw [recover, get_bind] at h
  split at h
  · next hfault =>
    rw [resynchronize, get_bind] at h
    split at h
    · next hends =>
      obtain ⟨-, rfl⟩ := Prod.mk.inj (Option.some.inj h)
      rw [State.takenTo_self, if_neg]
      rintro ⟨-, -, hopen⟩
      exact Bool.eq_false_iff.1 hopen hends
    · next hopen =>
      have htakes := skipStatement_takes hs h
      rw [if_pos ⟨hfault.1, hfault.2, Bool.eq_false_iff.2 hopen⟩]
      apply State.takenTo_of_takes
      rw [← htakes.log]
      exact htakes
  · next hfault =>
    obtain ⟨-, rfl⟩ := Prod.mk.inj (Option.some.inj h)
    rw [State.takenTo_self, if_neg]
    rintro ⟨hrecovery, hbefore, -⟩
    exact hfault ⟨hrecovery, hbefore⟩

/-- **What is skipped behind a statement** is told by its faults and by the last of its tokens. -/
theorem Run.skipped (h : Run t (.statement st) s s₁) (hk : s.kind ≠ .eof)
    (hs : ∀ t ∈ s₁.stream.ahead, t.kind ≠ .eof)
    (hr : recover recovery s.log.length s₁ = some ((), s₂)) :
    s₁.takenTo s₂ = if recovery = .synchronize ∧ s.notedTo s₁ ≠ [] ∧
      ((s.takenTo s₁).getLast?.any fun t => endsStatement t.kind) = false then
        throughEnd s₁.stream.ahead else [] := by
  have hlast : s₁.last = (s.takenTo s₁).getLast? := h.takes.last (h.takenTo_ne_nil hk)
  rw [takenTo_of_recover hs hr, hlast]
  simp only [h.notedTo_ne_nil_iff]

/-- **Each portion of a run** lies in front of the tokens of those behind it. -/
theorem PortionRun.tiles (h : PortionRun t recovery ps s s') (hs : Laid s.stream.ahead)
    {front behind : List Portion} {p : Portion} (hps : ps = front ++ p :: behind) :
    p.Tiles recovery (p.skipped ++ behind.flatMap Portion.tokens) := by
  induction h generalizing front with
  | done => exact absurd hps.symm (by simp)
  | @next s s₁ s₂ s' st ps hk hst hr hrest ih =>
    have htaken : s.stream.ahead = s.takenTo s₁ ++ s₁.stream.ahead := hst.takes.ahead
    have hskipped := (takes_of_recover hr).ahead
    have hbehind : Laid s₁.stream.ahead := (htaken ▸ hs).right
    cases front with
    | nil =>
      obtain ⟨rfl, rfl⟩ := List.cons.inj hps
      -- the portions behind are read to the end of the text, so theirs are all tokens behind
      have hall : s₂.stream.ahead = ps.flatMap Portion.tokens := by
        have hlaid : Laid s₂.stream.ahead := (hskipped ▸ hbehind).right
        rw [hrest.ahead] at hlaid ⊢
        have hend := State.ahead_eq_nil hrest.topRun.kind_eof fun u hu => (hlaid.right.solid u hu).2
        rw [hend, List.append_nil]
      refine ⟨hst.span_taken hk hs, ?_⟩
      rw [← hall, ← hskipped]
      exact hst.skipped hk (fun u hu => (hbehind.solid u hu).2) hr
    | cons q front =>
      obtain ⟨-, hps⟩ := List.cons.inj hps
      exact ih (hskipped ▸ hbehind).right hps

end Descent

variable {source : String}

theorem laid_ahead (h : source.utf8ByteSize ≤ Span.limit) :
    Laid (Scanner.ofString source).drain.ahead := by
  constructor
  · exact (List.pairwise_append.1 (tokenize_starts h)).1
  · intro t ht
    exact ⟨((drain_ofString_placed h).inside t ht).2.1, Scanner.kind_ne_eof_of_mem_drain ht⟩

/-- All tokens in front of the end belong to a portion. -/
theorem tokens_eq_portions (source : String) (recovery : Recovery) :
    (tokenize source).filter (fun t => t.kind ≠ .eof) =
      (portions source recovery).flatMap Portion.tokens := by
  obtain ⟨s', hrun⟩ := portions_run source recovery
  have hahead : (Scanner.ofString source).drain.ahead =
    (portions source recovery).flatMap Portion.tokens ++ s'.stream.ahead := hrun.ahead
  have hend : s'.stream.ahead = [] := by
    apply State.ahead_eq_nil hrun.topRun.kind_eof
    intro t ht
    exact Scanner.kind_ne_eof_of_mem_drain (hahead ▸ List.mem_append_right _ ht)
  rw [hend, List.append_nil] at hahead
  rw [← hahead]
  exact filter_tokens source 1

/-- **The portions of a text tile it.** Their statements are those of its program and their faults
those that are noted. Each token in front of the end stands in one portion, in order. A statement
reaches over the tokens that are taken for it, of which there is one at least. Tokens are skipped
behind it only if that is asked for, if it has a fault, and if the last of its tokens is neither a
semicolon nor a closing brace, and then through the next one of these, or to the end of the text. -/
theorem portions_tile (h : source.utf8ByteSize ≤ Span.limit) (recovery : Recovery) :
    (read source recovery).program.body = (portions source recovery).map (·.statement) ∧
      (read source recovery).diagnostics = (portions source recovery).flatMap (·.noted) ∧
      (tokenize source).filter (fun t => t.kind ≠ .eof) =
        (portions source recovery).flatMap Portion.tokens ∧
      ∀ front p behind, portions source recovery = front ++ p :: behind →
        p.Tiles recovery (p.skipped ++ behind.flatMap Portion.tokens) := by
  obtain ⟨hbody, hnoted⟩ := read_eq_portions source recovery
  obtain ⟨s', hrun⟩ := portions_run source recovery
  refine ⟨hbody, hnoted, tokens_eq_portions source recovery, ?_⟩
  intro front p behind hps
  exact hrun.tiles (laid_ahead h) hps

/-- A parenthesis is not closed. The statement takes the semicolon for the parenthesis and a name for
the semicolon, and then the rest is skipped up to where a statement ends. -/
theorem portions_tile_unclosed :
    "let x = (1; y z; w".utf8ByteSize ≤ Span.limit ∧
      (portions "let x = (1; y z; w" .synchronize).map
        (fun p => (p.taken.map (·.text), p.skipped.map (·.text))) =
          [(["let", "x", "=", "(", "1", ";", "y"], ["z", ";"]), (["w"], [])] ∧
      ∀ front p behind, portions "let x = (1; y z; w" .synchronize = front ++ p :: behind →
        p.Tiles .synchronize (p.skipped ++ behind.flatMap Portion.tokens) := by
  have hsize : "let x = (1; y z; w".utf8ByteSize ≤ Span.limit := by decide +kernel
  obtain ⟨-, -, -, htiles⟩ := portions_tile hsize .synchronize
  exact ⟨hsize, by decide +kernel, htiles⟩

end Monkey

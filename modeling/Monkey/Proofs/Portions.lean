import Monkey.Proofs.Operations

/-!
# Portions of a text

A text is read in portions, one for each statement that stands in no other: the tokens that are
taken for the statement, the faults that are noted meanwhile, and the tokens that are skipped behind
it (`Portion`). They are told by a reader that goes the same way as that of programs and keeps an
account of it (`portions`). Main statements: the portions of a text are those of a run
(`portions_run`), and they make up the program, the faults and the tokens of the text
(`read_eq_portions`, `PortionRun.diagnostics`, `PortionRun.ahead`).
-/

namespace Monkey

/-- What is read as one statement that stands in no other. -/
structure Portion where
  statement : Stmt
  /-- The tokens that are taken for the statement. -/
  taken : List Token
  /-- The faults that are noted while the statement is read. -/
  noted : List Diagnostic
  /-- The tokens that are skipped behind the statement. -/
  skipped : List Token

/-- All tokens of a portion. -/
def Portion.tokens (p : Portion) : List Token := p.taken ++ p.skipped

namespace Descent

/-- The tokens that are taken from one state to a later one. -/
def State.takenTo (s s' : State) : List Token := s.stream.ahead.take (s.left - s'.left)

/-- The faults that are noted from one state to a later one. -/
def State.notedTo (s s' : State) : List Diagnostic := s'.diagnostics.drop s.diagnostics.length

/-- A statement that stands in no other, with an account of how it was read. -/
def portion (t : Table) (recovery : Recovery) (n : Nested) : Parse Portion := do
  let before ← get
  let statement ← statement t n
  let behind ← get
  recover recovery before.log.length
  return ⟨statement, before.takenTo behind, before.notedTo behind, behind.takenTo (← get)⟩

/-- All portions up to the end of the text. -/
def portions (t : Table) (recovery : Recovery) (n : Nested) : Parse (List Portion) :=
  collect (· == .eof) (some <$> portion t recovery n)

/-- By the rules of a table, the portions are read from one state up to another, where the text
ends. -/
inductive PortionRun (t : Table) (recovery : Recovery) : List Portion → State → State → Prop where
  | done {s : State} (h : s.kind = .eof) : PortionRun t recovery [] s s
  | next {s s₁ s₂ s' : State} {st : Stmt} {ps : List Portion} (h : s.kind ≠ .eof)
      (hs : Run t (.statement st) s s₁) (hr : recover recovery s.log.length s₁ = some ((), s₂))
      (hps : PortionRun t recovery ps s₂ s') :
      PortionRun t recovery (⟨st, s.takenTo s₁, s.notedTo s₁, s₁.takenTo s₂⟩ :: ps) s s'

variable {t : Table} {n : Nested} {s s₁ s₂ s' : State} {d : Nat} {recovery : Recovery}
  {ts : List Token} {ps : List Portion}

theorem portion_reaches (ht : t.SparesEnd) (hn : n.Handles d) (hs : s.left ≤ d)
    (recovery : Recovery) : Reaches (portion t recovery n) s (s.left - 1) := by
  refine Reaches.bind_get ?_
  refine (statement_reaches ht hn hs).bind fun _ s₁ h₁ => ?_
  refine Reaches.bind_get ?_
  refine ((recover_reaches recovery _).mono h₁).bind fun _ s₂ h₂ => ?_
  exact Reaches.bind_get (.pure h₂)

/-- The portions are read to the end of the text, whatever the tokens. -/
theorem portions_reaches (ht : t.SparesEnd) (recovery : Recovery) :
    Reaches (unbounded t (portions t recovery)) s s.left := by
  have hn := nested_handles ht (s.left + 1)
  exact unbounded_reaches
    (collect_reaches rfl fun s' hs _ => (portion_reaches ht hn (by omega) recovery).map)

theorem portion_run (hn : n.Obeys t) {p : Portion} (h : portion t recovery n s = some (p, s')) :
    ∃ st s₁, Run t (.statement st) s s₁ ∧ recover recovery s.log.length s₁ = some ((), s') ∧
      p = ⟨st, s.takenTo s₁, s.notedTo s₁, s₁.takenTo s'⟩ := by
  rw [portion, get_bind, bind_eq_some_iff] at h
  obtain ⟨st, s₁, h₁, h⟩ := h
  rw [get_bind, bind_eq_some_iff] at h
  obtain ⟨⟨⟩, s₂, h₂, h⟩ := h
  rw [get_bind] at h
  obtain ⟨rfl, rfl⟩ := Prod.mk.inj (Option.some.inj h)
  exact ⟨st, s₁, statement_run hn h₁, h₂, rfl⟩

theorem collect_portionRun (hn : n.Obeys t) (h : portions t recovery n s = some (ps, s')) :
    PortionRun t recovery ps s s' := by
  refine collect_induction (P := fun ps s s' => PortionRun t recovery ps s s')
    (fun hk => .done (by simpa using hk)) ?_ h
  intro s s₁ s' x ps hk hx hps
  obtain ⟨p, s₂, hp, he⟩ := map_eq_some_iff.1 hx
  obtain ⟨rfl, rfl⟩ := Prod.mk.inj he
  obtain ⟨st, s₃, hs, hr, rfl⟩ := portion_run hn hp
  exact .next (by simpa using hk) hs hr hps

/-- What is taken is what is taken between the states. -/
theorem State.takenTo_of_takes (h : Takes ts s (s'.withLog s.log)) : s.takenTo s' = ts := by
  have hahead := h.ahead
  have hleft : s.left = ts.length + s'.left := h.left
  rw [takenTo, hahead, hleft, Nat.add_sub_cancel, List.take_left]

/-- The tokens of a statement are those that are taken for it. -/
theorem Run.takes {p : Phrase} (h : Run t p s s') : Takes (s.takenTo s') s (s'.withLog s.log) := by
  obtain ⟨ts, ht⟩ := h.precedes.takes
  rw [State.takenTo_of_takes ht]
  exact ht

/-- The faults of a statement stand behind those before it. -/
theorem Run.diagnostics {p : Phrase} (h : Run t p s s') :
    s'.diagnostics = s.diagnostics ++ s.notedTo s' :=
  (List.prefix_iff_eq_append.1 h.precedes.diagnostics).symm

/-- What is skipped is taken, and no fault is noted meanwhile. -/
theorem takes_of_recover {before : Nat} (h : recover recovery before s = some ((), s')) :
    Takes (s.takenTo s') s s' := by
  obtain ⟨ts, ht⟩ := recover_takes h
  have hlog : Takes ts s (s'.withLog s.log) := by
    rw [← ht.log]
    exact ht
  rw [State.takenTo_of_takes hlog]
  exact ht

namespace PortionRun

/-- The statements of the portions are read by a run. -/
theorem topRun (h : PortionRun t recovery ps s s') :
    TopRun t recovery (ps.map (·.statement)) s s' := by
  induction h with
  | done h => exact .done h
  | next h hs hr _ ih => exact .next h hs hr ih

/-- **The faults of the portions** are noted behind those before, and no others. -/
theorem diagnostics (h : PortionRun t recovery ps s s') :
    s'.diagnostics = s.diagnostics ++ ps.flatMap (·.noted) := by
  induction h with
  | done => rw [List.flatMap_nil, List.append_nil]
  | @next s s₁ s₂ s' st ps _ hs hr _ ih =>
    have hskipped : s₂.diagnostics = s₁.diagnostics :=
      congrArg List.reverse (takes_of_recover hr).log
    rw [ih, hskipped, hs.diagnostics, List.flatMap_cons, List.append_assoc]

/-- **The tokens of the portions** are those that are taken, in their order. -/
theorem ahead (h : PortionRun t recovery ps s s') :
    s.stream.ahead = ps.flatMap Portion.tokens ++ s'.stream.ahead := by
  induction h with
  | done => rfl
  | @next s s₁ s₂ s' st ps _ hs hr _ ih =>
    have htaken : s.stream.ahead = s.takenTo s₁ ++ s₁.stream.ahead := hs.takes.ahead
    have hskipped : s₁.stream.ahead = s₁.takenTo s₂ ++ s₂.stream.ahead :=
      (takes_of_recover hr).ahead
    rw [htaken, hskipped, ih, List.flatMap_cons, Portion.tokens, List.append_assoc,
      List.append_assoc]

end PortionRun

end Descent

open Descent

/-- The portions in which a text is read by the rules of the language. -/
def portions (source : String) (recovery : Recovery) : List Portion :=
  let start := State.start (Scanner.ofString source).drain
  ((unbounded .standard (Descent.portions .standard recovery) start).get
    (portions_reaches Table.standard_sparesEnd recovery).isSome).1

variable (source : String) (recovery : Recovery)

/-- A text is read in its portions, from its first token to its end. -/
theorem portions_run : ∃ s', PortionRun .standard recovery (portions source recovery)
    (.start (Scanner.ofString source).drain) s' := by
  have hsome := (portions_reaches (s := .start (Scanner.ofString source).drain)
    Table.standard_sparesEnd recovery).isSome
  obtain ⟨⟨ps, s'⟩, hps⟩ := Option.isSome_iff_exists.1 hsome
  have hportions : portions source recovery = ps := by simp [portions, hps]
  rw [hportions]
  exact ⟨s', collect_portionRun (nested_obeys _ _) hps⟩

/-- **The portions of a text make up what it says.** -/
theorem read_eq_portions :
    (read source recovery).program.body = (portions source recovery).map (·.statement) ∧
      (read source recovery).diagnostics = (portions source recovery).flatMap (·.noted) := by
  obtain ⟨s', hrun⟩ := portions_run source recovery
  rw [read_eq_of_run source recovery hrun.topRun]
  exact ⟨rfl, hrun.diagnostics⟩

end Monkey

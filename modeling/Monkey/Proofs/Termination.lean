import Monkey.Proofs.Faults

/-!
# Termination

By any table that spares the end of the text, a program is read to its end, and every expression and
statement that is read on the way takes a token. That a reader answers is shown by the number of
tokens to come (`nested_handles`); that it takes a token, by induction on its run
(`Run.left_le`). Main statement: `Session.program?_ends`.
-/

namespace Monkey

namespace Descent

variable {t : Table} {s s' : State}

@[simp] theorem State.left_expected (s : State) (k : Kind) :
    (s.expected k).left = s.left - 1 := by
  unfold expected
  split
  · rw [left_advance]
  · rw [left_advance, left_noteHere]

theorem State.left_passed_le (s : State) (k : Kind) : (s.passed k).left ≤ s.left := by
  unfold passed
  split
  · rw [left_advance]
    omega
  · exact Nat.le_refl _

/-- How many tokens are taken at least in reading a phrase, if there are any. -/
def Phrase.least : Phrase → Nat
  | .extension .. | .arguments _ | .parameters _ | .alternative _ | .returned _ | .statements _ => 0
  | _ => 1

theorem left_of_literal {e : Expr} (h : literal s = some (e, s')) : s'.left = s.left - 1 := by
  rcases literal_cases h with ⟨n, -, -, -, rfl⟩ | ⟨-, -, -, rfl⟩ | ⟨-, -, rfl⟩ | ⟨-, -, rfl⟩ |
    ⟨-, -, -, -, rfl⟩
  case inr.inl => rw [State.left_note, State.left_advance]
  all_goals rw [State.left_advance]

/-- **A run takes tokens and gives none back.** -/
theorem Run.left_le {p : Phrase} (h : Run t p s s') : s'.left ≤ s.left - p.least := by
  -- a phrase that begins with a token takes it before anything inside is read; what may be passed
  -- over behind a parameter or a statement only takes more
  induction h with
  | literal h => exact Nat.le_of_eq (left_of_literal h)
  | @noParameter s s' ps _ _ _ ih =>
    have hpassed := (s.expected .identifier).left_passed_le .comma
    simp only [Phrase.least, State.left_expected] at *
    omega
  | @parameter s s' ps _ _ ih =>
    have hpassed := (s.expected .identifier).left_passed_le .comma
    simp only [Phrase.least, State.left_expected] at *
    omega
  | @bare s s₁ e _ ih =>
    have hpassed := s₁.left_passed_le .semicolon
    simp only [Phrase.least] at *
    omega
  | _ =>
    simp only [Phrase.least, State.left_expected, State.left_advance, State.left_note] at *
    omega

/-- What the readers answer takes a token, unless the text is at its end. -/
structure Nested.Consumes (n : Nested) : Prop where
  expression : ∀ {power s e s'}, n.expression power s = some (e, s') → s.kind ≠ .eof →
    s'.left < s.left
  statement : ∀ {s st s'}, n.statement s = some (st, s') → s.kind ≠ .eof → s'.left < s.left

theorem State.left_pos (h : s.kind ≠ .eof) : 0 < s.left :=
  Nat.pos_of_ne_zero fun h' => h (kind_of_left h')

theorem kind_ne_eof_of_prefixRule {rule : PrefixRule} (ht : t.SparesEnd)
    (h : t.prefixRule s.kind = some rule) : s.kind ≠ .eof := by
  intro hk
  rw [hk, ht.1] at h
  cases h

theorem kind_ne_eof_of_infixAbove {power : Power} {r : Power × InfixRule} (ht : t.SparesEnd)
    (h : t.infixAbove power s.kind = some r) : s.kind ≠ .eof := by
  intro hk
  rw [hk, infixAbove_eof ht] at h
  cases h

theorem kind_ne_eof_of_endsList (h : endsList s.kind = false) : s.kind ≠ .eof := by
  intro hk
  rw [hk] at h
  cases h

theorem kind_ne_eof_of_endsBlock (h : endsBlock s.kind = false) : s.kind ≠ .eof := by
  intro hk
  rw [hk] at h
  cases h

/-- Readers take a token, however deep they may be nested. -/
theorem nested_consumes (t : Table) (d : Nat) : (nested t d).Consumes := by
  constructor
  · intro power s e s' h hk
    have hleft : s'.left ≤ s.left - 1 := ((nested_obeys t d).expression h).left_le
    have hpos := State.left_pos hk
    omega
  · intro s st s' h hk
    have hleft : s'.left ≤ s.left - 1 := ((nested_obeys t d).statement h).left_le
    have hpos := State.left_pos hk
    omega

/-- At the end of the text there is nothing more to read. -/
theorem program_of_eof {recovery : Recovery} (n : Nested) (h : s.kind = .eof) :
    program t recovery n s = some (⟨[], ⟨0, s.current.span.stop⟩⟩, s) := by
  rw [program, bind_eq_some_iff]
  refine ⟨[], s, ?_, rfl⟩
  rw [collect, if_pos]
  rw [h]
  rfl

end Descent

open Descent

/-- **Termination.** Where the end of the text calls for no rule inside an expression, a session reads
the rest of its text as a program and stands at the end then, so that there is nothing more to read.
The readers for expressions and statements answer if they may be nested deeper than there are tokens
to come, and all that they answer, at any depth, takes a token unless the text is at its end. -/
theorem Session.program?_ends {s : Session} (ht : s.table.SparesEnd) :
    (∃ p s', s.program? = some (p, s') ∧ s'.state.kind = .eof ∧
      ∃ q, s'.program? = some (q, s') ∧ q.body = []) ∧
      ∀ depth, (nested s.table depth).Handles depth ∧ (nested s.table depth).Consumes := by
  constructor
  · have hanswer := (program_reaches (s := s.state) ht s.recovery).isSome
    obtain ⟨⟨p, state⟩, hp⟩ := Option.isSome_iff_exists.1 hanswer
    obtain ⟨hrun, -⟩ := program_run (nested_obeys s.table _) hp
    have hend := hrun.kind_eof
    refine ⟨p, { s with state }, ?_, hend, ⟨[], ⟨0, state.current.span.stop⟩⟩, ?_, rfl⟩
    · rw [Session.program?, Session.read?, hp]
      rfl
    · have hagain : unbounded s.table (program s.table s.recovery) state = _ :=
        program_of_eof _ hend
      rw [Session.program?, Session.read?, hagain]
      rfl
  · intro depth
    exact ⟨nested_handles ht depth, nested_consumes s.table depth⟩

/-- A group may even begin with a closing parenthesis, and the text break off inside. -/
theorem program?_ends_setPrefix :
    (Table.standard.setPrefix .closeParen .group).SparesEnd ∧
      ∃ p s', Session.program? ⟨Table.standard.setPrefix .closeParen .group, .synchronize,
        .start (Scanner.ofString ")(").drain⟩ = some (p, s') ∧ s'.state.kind = .eof := by
  have hspares : (Table.standard.setPrefix .closeParen .group).SparesEnd := ⟨rfl, rfl⟩
  obtain ⟨⟨p, s', hp, hend, -⟩, -⟩ := Session.program?_ends
    (s := ⟨Table.standard.setPrefix .closeParen .group, .synchronize,
      .start (Scanner.ofString ")(").drain⟩) hspares
  exact ⟨hspares, p, s', hp, hend⟩

end Monkey

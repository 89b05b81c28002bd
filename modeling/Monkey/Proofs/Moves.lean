import Monkey.Proofs.Faults

/-!
# Moves

Whatever a reader does, it does in moves: it takes the current token, or takes it and notes a fault
of it. So the faults that are noted between two states are about tokens that are passed between
them, in the order of the text and each at the place of its token (`Moves.diagnostics`,
`Move.sublist_tokens`), and the tokens that are passed are those of the stream, with the end of the
text as often as it is met (`Moves.takes`).
-/

namespace Monkey.Descent

/-- A token that is passed, perhaps with a fault of it. At the end of the text the token is looked
at and stays. -/
inductive Move where
  | take (token : Token)
  | report (cause : Cause)

namespace Move

/-- The token that is passed. -/
def token : Move → Token
  | take token => token
  | report cause => cause.token

/-- What is noted in a move. -/
def diagnostics : Move → List Diagnostic
  | take _ => []
  | report cause => [⟨cause, cause.token.span.start⟩]

/-- What is noted in moves is about tokens that are passed, one fault of each at most. -/
theorem sublist_tokens (ms : List Move) :
    ((ms.flatMap diagnostics).map (·.cause.token)).Sublist (ms.map token) := by
  induction ms with
  | nil => exact List.nil_sublist _
  | cons m ms ih =>
    cases m with
    | take t => exact ih.cons t
    | report c => exact ih.cons_cons c.token

theorem position_eq {m : Move} {d : Diagnostic} (h : d ∈ m.diagnostics) :
    d.position = d.cause.token.span.start := by
  cases m with
  | take t => cases h
  | report c =>
    obtain rfl := List.mem_singleton.1 h
    rfl

end Move

namespace State

variable (s : State)

/-- The state after a move. -/
def after (m : Move) : State := { s.advance with log := m.diagnostics ++ s.log }

@[simp] theorem after_take (t : Token) : s.after (.take t) = s.advance := by
  rw [after, Move.diagnostics, List.nil_append, ← s.log_advance]

theorem after_report {c : Cause} (h : c.token = s.current) :
    s.after (.report c) = s.advance.note c s.current.span.start := by
  rw [after, Move.diagnostics, note, log_advance, h]
  rfl

end State

/-- Between two states the moves were made. -/
inductive Moves : List Move → State → State → Prop where
  | nil {s : State} : Moves [] s s
  | cons {s s' : State} {m : Move} {ms : List Move} (hm : m.token = s.current)
      (hs : Moves ms (s.after m) s') : Moves (m :: ms) s s'

/-- The state with another log. -/
def State.withLog (s : State) (log : List Diagnostic) : State := { s with log }

theorem Takes.withLog {ts : List Token} {s s' : State} (h : Takes ts s s')
    (log : List Diagnostic) : Takes ts (s.withLog log) (s'.withLog log) := by
  induction h with
  | nil => exact .nil
  | @cons s s' t ts us ha _ ih =>
    refine .cons ha ?_
    rw [State.advance_of_cons ha] at ih
    rw [State.advance_of_cons (s := s.withLog log) ha]
    exact ih

namespace Moves

variable {s s₁ s' : State} {m : Move} {ms ns : List Move} {ts : List Token} {c : Cause} {k : Kind}

theorem append (h : Moves ms s s₁) (h' : Moves ns s₁ s') : Moves (ms ++ ns) s s' := by
  induction h with
  | nil => exact h'
  | cons hm _ ih => exact .cons hm (ih h')

theorem take (s : State) : Moves [.take s.current] s s.advance :=
  .cons rfl (s.after_take _ ▸ .nil)

theorem report (h : c.token = s.current) :
    Moves [.report c] s (s.advance.note c s.current.span.start) :=
  .cons h (State.after_report s h ▸ .nil)

/-- A token that should be of another kind is taken with that fault. -/
theorem expected_of_ne (h : s.kind ≠ k) :
    Moves [.report (.unexpected s.current k)] s (s.expected k) := by
  rw [State.expected, if_neg h]
  refine .cons rfl ?_
  rw [State.after, State.noteHere, State.note, State.advance, State.advance]
  cases s.stream.ahead <;> exact .nil

/-- Tokens that are taken without a fault are moves. -/
theorem of_takes (h : Takes ts s s') : Moves (ts.map .take) s s' := by
  induction h with
  | nil => exact .nil
  | cons ha _ ih => exact .cons (State.current_of_cons ha).symm (State.after_take _ _ ▸ ih)

/-- **What is noted** is what the moves note, in their order. -/
theorem diagnostics (h : Moves ms s s') :
    s'.diagnostics = s.diagnostics ++ ms.flatMap Move.diagnostics := by
  induction h with
  | nil => simp
  | @cons s s' m ms _ _ ih =>
    rw [ih, State.diagnostics, State.diagnostics, State.after]
    cases m <;> simp [Move.diagnostics]

/-- **The tokens that are passed** are those that are taken, and behind them the end of the text as
often as it is met. -/
theorem takes (h : Moves ms s s') : ∃ ts n,
    ms.map Move.token = ts ++ List.replicate n s.stream.final ∧
      Takes ts s (s'.withLog s.log) ∧ (n ≠ 0 → s'.stream.ahead = []) := by
  induction h with
  | nil => exact ⟨[], 0, rfl, .nil, fun h => absurd rfl h⟩
  | @cons s s' m ms hm _ ih =>
    obtain ⟨ts, n, htokens, htakes, hn⟩ := ih
    have hrest : Takes ts s.advance (s'.withLog s.log) := by
      have hadvance : (s.after m).withLog s.log = s.advance := by
        rw [← s.log_advance]
        rfl
      exact hadvance ▸ htakes.withLog s.log
    have hfinal : (s.after m).stream.final = s.stream.final :=
      congrArg Token.ending s.stop_advance
    rw [hfinal] at htokens
    cases ha : s.stream.ahead with
    | nil =>
      -- nothing can be taken any more, so all that is met is the end of the text
      have hadvance : s.advance = s := by
        rw [State.advance, ha]
      rw [hadvance] at hrest
      have hnil := hrest.ahead
      rw [ha] at hnil
      obtain ⟨rfl, hahead⟩ := List.append_eq_nil_iff.1 hnil.symm
      have hcurrent : s.current = s.stream.final := by
        rw [State.current, TokenStream.head, ha]
        rfl
      refine ⟨[], n + 1, ?_, hrest, fun _ => hahead⟩
      rw [List.map_cons, htokens, hm, hcurrent]
      rfl
    | cons t us =>
      refine ⟨t :: ts, n, ?_, .cons ha hrest, hn⟩
      rw [List.map_cons, htokens, hm, State.current_of_cons ha]
      rfl

end Moves

end Monkey.Descent

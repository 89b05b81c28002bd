import Monkey.Proofs.Conservation
import Monkey.Proofs.Termination

/-!
# Cascades of faults

A construct that is cut off by the end of the text misses several pieces at once, and every
construct around it misses some too. All that is paid for by the tokens that opened the constructs:
each token is worth five faults (`State.outlay`), of which one at most is spent on the token itself,
and the others are kept for what may be missing behind it at the end of the text. What is missing
adds up along a phrase (`Costs.trans`), to no more than its first token pays for (`Run.paid`). Five
are needed by a condition of which nothing but its first token is there. Main statement:
`diagnostics_length_le`.
-/

namespace Monkey

namespace Descent

variable {t : Table} {s s₁ s' : State} {e : Expr} {ss : List Stmt} {recovery : Recovery}
  {m n : Nat}

/-- The faults noted so far, and five for each token to come. -/
def State.outlay (s : State) : Nat := s.log.length + 5 * s.left

/-- How many faults a phrase may note if the text has ended before it. -/
def Phrase.dues : Phrase → Nat
  | .opening _ _ => 5
  | .ruled _ _ | .statement _ => 4
  | .group _ => 3
  | .block _ => 2
  | .expression _ _ | .following _ _ _ _ | .returned _ => 1
  | .extension _ _ _ | .arguments _ | .parameters _ | .alternative _ | .statements _ => 0

/-- Between two states at most so many faults were noted that the tokens taken there do not pay
for. -/
def Costs (n : Nat) (s s' : State) : Prop := s'.outlay ≤ s.outlay + n

/-- Between two states the tokens taken pay for all faults; or the text had ended before, and there
are at most so many. -/
def Paid (n : Nat) (s s' : State) : Prop := Costs 0 s s' ∨ s.left = 0 ∧ Costs n s s'

namespace State

theorem outlay_advance (s : State) (h : 0 < s.left) : s.advance.outlay + 5 = s.outlay := by
  simp only [outlay, log_advance, left_advance]
  omega

theorem outlay_note (s : State) (c : Cause) (i : Nat) : (s.note c i).outlay = s.outlay + 1 := by
  simp only [outlay, log_note, left_note, List.length_cons]
  omega

theorem length_log_expected_le (s : State) (k : Kind) :
    (s.expected k).log.length ≤ s.log.length + 1 := by
  rcases s.log_expected k with h | h
  all_goals simp [h]

end State

namespace Costs

theorem refl (s : State) : Costs 0 s s := Nat.le_refl _

theorem trans (h : Costs m s s₁) (h' : Costs n s₁ s') : Costs (m + n) s s' := by
  unfold Costs at *
  omega

theorem advance (s : State) : Costs 0 s s.advance := by
  simp only [Costs, State.outlay, State.log_advance, State.left_advance]
  omega

theorem note (s : State) (c : Cause) (i : Nat) : Costs 1 s (s.note c i) :=
  Nat.le_of_eq (s.outlay_note c i)

theorem expected (s : State) (k : Kind) : Costs 1 s (s.expected k) := by
  have hlog := s.length_log_expected_le k
  simp only [Costs, State.outlay, State.left_expected]
  omega

theorem passed (s : State) (k : Kind) : Costs 0 s (s.passed k) := by
  have hleft := s.left_passed_le k
  simp only [Costs, State.outlay, State.log_passed]
  omega

/-- A literal may be too large a number. -/
theorem literal (h : Descent.literal s = some (e, s')) : Costs 1 s.advance s' := by
  rcases literal_cases h with ⟨n, -, -, -, rfl⟩ | ⟨-, -, -, rfl⟩ | ⟨-, -, rfl⟩ | ⟨-, -, rfl⟩ |
    ⟨-, -, -, -, rfl⟩
  case inr.inl => exact .note _ _ _
  all_goals exact Nat.le_succ _

end Costs

namespace Paid

theorem costs (h : Paid n s s') : Costs n s s' := by
  unfold Paid Costs at *
  omega

theorem of_pos (h : Paid n s s') (hs : 0 < s.left) : Costs 0 s s' := by
  rcases h with h | ⟨hend, -⟩
  · exact h
  · omega

theorem trans (h : Paid n s s₁) (h' : Costs 0 s₁ s') : Paid n s s' := by
  rcases h with h | ⟨hend, h⟩
  · exact .inl (h.trans h')
  · exact .inr ⟨hend, h.trans h'⟩

theorem mono (h : Paid m s s') (hle : m ≤ n) : Paid n s s' := by
  rcases h with h | ⟨hend, h⟩
  · exact .inl h
  · exact .inr ⟨hend, Nat.le_trans h (Nat.add_le_add_left hle _)⟩

/-- **The first token of a phrase pays for five faults** behind it. -/
theorem token (h : Costs n s.advance s') (hn : n ≤ 5) : Paid n s s' := by
  rcases Nat.eq_zero_or_pos s.left with hend | hpos
  · exact .inr ⟨hend, by simpa using (Costs.advance s).trans h⟩
  · left
    have hworth := s.outlay_advance hpos
    unfold Costs at *
    omega

/-- A token that may stand for another one pays for that and for four faults behind it. -/
theorem expected {k : Kind} (h : Costs n (s.expected k) s') (hn : n ≤ 4) : Paid (1 + n) s s' := by
  rcases Nat.eq_zero_or_pos s.left with hend | hpos
  · exact .inr ⟨hend, (Costs.expected s k).trans h⟩
  · left
    have hworth := s.outlay_advance hpos
    have hlog := s.length_log_expected_le k
    unfold Costs at *
    simp only [State.outlay, State.left_expected, State.log_advance, State.left_advance] at *
    omega

end Paid

/-- **Five faults for each token are enough**, and at the end of the text those that a phrase may
note there. -/
theorem Run.paid (ht : t.SparesEnd) {p : Phrase} (h : Run t p s s') : Paid p.dues s s' := by
  -- what may be missing inside a phrase adds up to no more than its first token pays for; a list,
  -- an extension or an alternative reads nothing at the end of the text
  induction h with simp only [Phrase.dues] at *
  | @hole s => exact .token (.note _ _ _) (by decide)
  | expression h _ _ iho ihe =>
    have hpos := State.left_pos (kind_ne_eof_of_prefixRule ht h)
    exact .inl ((iho.of_pos hpos).trans ihe.costs)
  | literal h => exact (Paid.token (.literal h) (by decide)).mono (by decide)
  | @unary s s' e _ ih =>
    have hinside : Costs 1 s.advance s' := ih.costs
    exact (Paid.token hinside (by decide)).mono (by decide)
  | opened _ ih => exact ih.mono (by decide)
  | @conditional s s₁ s₂ s' e b a _ _ _ ihe ihb iha =>
    have hinside : Costs 5 s.advance s' := (ihe.costs.trans ihb.costs).trans iha.costs
    exact .token hinside (by decide)
  | @function s s₁ s' ps b _ _ ihp ihb =>
    have hparameters : Costs 1 s.advance s₁ := (Costs.expected _ _).trans ihp.costs
    have hinside : Costs 4 s.advance s' :=
      hparameters.trans ((Costs.expected _ _).trans ihb.costs)
    exact (Paid.token hinside (by decide)).mono (by decide)
  | @group s s₁ e _ ih =>
    have hinside : Costs 2 (s.expected .openParen) (s₁.expected .closeParen) :=
      ih.costs.trans (.expected _ _)
    exact .expected hinside (by decide)
  | extend h _ _ ihf ihe =>
    have hpos := State.left_pos (kind_ne_eof_of_infixAbove ht h)
    exact .inl ((ihf.of_pos hpos).trans ihe.costs)
  | binary _ ih => exact .token ih.costs (by decide)
  | @call s s₁ power left es _ ih =>
    have hinside : Costs 1 s.advance (s₁.expected .closeParen) := ih.costs.trans (.expected _ _)
    exact .token hinside (by decide)
  | comma _ _ ih => exact .token ih.costs (by decide)
  | noArgument h _ _ _ ihe iha | argument h _ _ _ _ ihe iha =>
    have hpos := State.left_pos (kind_ne_eof_of_endsList h)
    exact .inl ((ihe.of_pos hpos).trans iha.costs)
  | @noParameter s s' ps h _ _ ih =>
    have hpos := State.left_pos (kind_ne_eof_of_endsList h)
    have hinside : Costs 0 (s.expected .identifier) s' := (Costs.passed _ _).trans ih.costs
    exact .inl ((Paid.expected hinside (by decide)).of_pos hpos)
  | @parameter s s' ps h _ ih =>
    have hpos : 0 < s.left := State.left_pos (by simp [h])
    have hinside : Costs 0 (s.expected .identifier) s' := (Costs.passed _ _).trans ih.costs
    exact .inl ((Paid.expected hinside (by decide)).of_pos hpos)
  | @block s s₁ ss _ ih =>
    have hinside : Costs 1 (s.expected .openCurly) (s₁.expected .closeCurly) :=
      ih.costs.trans (.expected _ _)
    exact .expected hinside (by decide)
  | @alternative s s' b h _ ih =>
    have hpos : 0 < s.left := State.left_pos (by simp [h])
    exact .inl ((Paid.token ih.costs (by decide)).of_pos hpos)
  | value _ _ ih => exact ih
  | @binding s s₁ e _ ih =>
    have hname : Costs 2 s.advance ((s.advance.expected .identifier).expected .assign) :=
      (Costs.expected _ _).trans (.expected _ _)
    have hinside : Costs 4 s.advance (s₁.expected .semicolon) :=
      hname.trans (ih.costs.trans (.expected _ _))
    exact .token hinside (by decide)
  | @returning s s₁ e _ ih =>
    have hinside : Costs 2 s.advance (s₁.expected .semicolon) := ih.costs.trans (.expected _ _)
    exact (Paid.token hinside (by decide)).mono (by decide)
  | ruledBlock _ ih => exact ih.mono (by decide)
  | bare _ ih => exact (ih.trans (.passed _ _)).mono (by decide)
  | statement _ ih => exact ih
  | statements h _ _ ihs ihss =>
    have hpos := State.left_pos (kind_ne_eof_of_endsBlock h)
    exact .inl ((ihs.of_pos hpos).trans ihss.costs)
  | stop | argumentsEnd | parametersEnd | noAlternative | noValue | statementsEnd =>
    exact .inl (.refl _)

/-- What is skipped behind a statement notes no fault. -/
theorem recover_costs {before : Nat} (h : recover recovery before s = some ((), s')) :
    Costs 0 s s' := by
  obtain ⟨ts, htakes⟩ := recover_takes h
  have hleft := htakes.left
  simp only [Costs, State.outlay, htakes.log]
  omega

/-- **Where the text has been read, every fault is paid for.** -/
theorem TopRun.costs (ht : t.SparesEnd) (h : TopRun t recovery ss s s') : Costs 0 s s' := by
  induction h with
  | done => exact .refl _
  | next hk hs hr _ ih =>
    have hfirst := (hs.paid ht).of_pos (State.left_pos hk)
    exact (hfirst.trans (recover_costs hr)).trans ih

end Descent

open Descent

/-- **Cascades of faults are linear.** Whatever is done after faults, a text has at most five faults
for each of its tokens, the end of the text apart. -/
theorem diagnostics_length_le (source : String) (recovery : Recovery) :
    (read source recovery).diagnostics.length ≤
      5 * ((tokenize source).filter fun t => t.kind ≠ .eof).length := by
  obtain ⟨s', hrun, -, hdiag⟩ := read_run source recovery
  have htokens : (tokenize source).filter (fun t => t.kind ≠ .eof) =
      (Scanner.ofString source).drain.ahead := filter_tokens source 1
  have hpaid := hrun.costs Table.standard_sparesEnd
  calc (read source recovery).diagnostics.length
      = s'.log.length := by rw [hdiag, State.diagnostics, List.length_reverse]
    _ ≤ s'.outlay := Nat.le_add_right _ _
    _ ≤ (State.start (Scanner.ofString source).drain).outlay := hpaid
    _ = 5 * (Scanner.ofString source).drain.ahead.length := Nat.zero_add _
    _ = _ := by rw [htokens]

/-- A condition of which nothing but its first token is there needs all five. -/
example : (read "if" .lenient).diagnostics.length = 5 := by decide +kernel

end Monkey

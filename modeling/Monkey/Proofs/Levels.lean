import Monkey.Grammar.Table
import Monkey.Proofs.Derivation

/-!
# Levels and powers

The levels of the grammar against the powers of the table of the language. An expression of some
level is read with a power that admits the level (`Admits`), up to a token whose own power is not
above it (`Ends`).
-/

namespace Monkey

namespace Power

variable {p q r : Power}

theorem le_trans (h : p ≤ q) (h' : q ≤ r) : p ≤ r := Nat.le_trans h h'

theorem le_of_lt (h : p < q) : p ≤ q := Nat.le_of_lt h

theorem lt_trans (h : p < q) (h' : q < r) : p < r := Nat.lt_trans h h'

theorem lowest_le (p : Power) : .lowest ≤ p := Nat.zero_le _

theorem le_call (p : Power) : p ≤ .call := by cases p <;> decide

theorem eq_or_lt_of_le (h : p ≤ q) : p = q ∨ p < q := by
  rcases Nat.eq_or_lt_of_le h with h | h
  · exact .inl (rank_injective h)
  · exact .inr h

end Power

/-- The operators between two operands are above the lowest level and below a call. -/
theorem operatorLevel_bounds {k : Kind} {p : Power} (h : k.operatorLevel? = some p) :
    .lowest < p ∧ p < .call := by
  cases k <;> cases h <;> decide

namespace Table

variable {p q : Power} {k : Kind} {rule : InfixRule}

theorem standard_infixRule_binary (h : k.operatorLevel? = some p) :
    standard.infixRule k = some (p, .binary) := by
  cases k <;> simp_all [Kind.operatorLevel?, standard]

/-- The table has a rule behind an operand for operators and for the parenthesis of a call. -/
theorem standard_infixRule_cases (h : standard.infixRule k = some (p, rule)) :
    rule = .binary ∧ k.operatorLevel? = some p ∨
      rule = .call ∧ p = .call ∧ k = .openParen := by
  cases k <;> simp_all [Kind.operatorLevel?, standard]

theorem standard_infixAbove_eq_none : standard.infixAbove p k = none ↔ standard.power k ≤ p := by
  cases k <;> cases p <;> decide

theorem standard_infixAbove_eq_some (h : standard.infixRule k = some (q, rule)) (hp : p < q) :
    standard.infixAbove p k = some (q, rule) := by
  have hk : k ≠ .semicolon := by
    rintro rfl
    cases h
  rw [infixAbove, if_neg hk, h]
  simp [hp]

/-- What goes on with an operand is a rule of the table with a power above. -/
theorem infixRule_of_infixAbove {t : Table} (h : t.infixAbove p k = some (q, rule)) :
    t.infixRule k = some (q, rule) ∧ p < q := by
  unfold infixAbove at h
  split at h
  · cases h
  · simpa [Option.filter_eq_some_iff] using h

theorem power_of_infixRule {t : Table} (h : t.infixRule k = some (q, rule)) : t.power k = q := by
  simp [power, h]

theorem standard_power_of_operatorLevel (h : k.operatorLevel? = some p) : standard.power k = p :=
  power_of_infixRule (standard_infixRule_binary h)

/-- A token goes on with an expression exactly if its power is not the lowest. -/
theorem continues_eq_false_iff : k.continues = false ↔ standard.power k ≤ .lowest := by
  cases k <;> decide

/-- The kinds of token for each way in which an expression begins. -/
theorem standard_prefixRule_cases {rule : PrefixRule} (h : standard.prefixRule k = some rule) :
    match rule with
    | .literal => k = .integer ∨ k = .identifier ∨ k = .trueWord ∨ k = .falseWord
    | .unary => k = .dash ∨ k = .bang
    | .group => k = .openParen
    | .conditional => k = .ifWord
    | .function => k = .fnWord := by
  cases k <;> first | (cases h; decide) | cases h

/-- The kinds of token for each way in which a statement begins. -/
theorem standard_statementRule_cases {rule : StatementRule}
    (h : (standard.statementRule k).getD .expression = rule) :
    match rule with
    | .binding => k = .letWord
    | .returning => k = .returnWord
    | .block => k = .openCurly
    | .expression => True := by
  cases k <;> cases h <;> trivial

/-- No token begins both a statement and an expression. -/
theorem standard_statementRule_eq_none (h : (standard.prefixRule k).isSome = true) :
    standard.statementRule k = none := by
  cases k <;> first | rfl | cases h

end Table

/-- A power with which an expression of a level is read: a lower one, or that of the level itself if
the level has no operators between operands. -/
def Admits (power level : Power) : Prop :=
  power < level ∨ power = level ∧ (level = .lowest ∨ level = .unary)

/-- A token of this kind ends an expression of a level, and is no `else`. -/
def Ends (level : Power) (k : Kind) : Prop := Table.standard.power k ≤ level ∧ k ≠ .elseWord

variable {power level own : Power} {k : Kind}

theorem Admits.tighter (h : Admits power level) (hl : level < own) : Admits power own := by
  rcases h with h | ⟨rfl, -⟩
  · exact .inl (Power.lt_trans h hl)
  · exact .inl hl

theorem Admits.le (h : Admits power level) : power ≤ level := by
  rcases h with h | ⟨rfl, -⟩
  · exact Power.le_of_lt h
  · exact Nat.le_refl _

/-- Where operators of a level stand between operands, only a lower power reads on. -/
theorem Admits.lt_of_operatorLevel (h : Admits power level) (hk : k.operatorLevel? = some level) :
    power < level := by
  rcases h with h | ⟨-, rfl | rfl⟩
  · exact h
  all_goals cases k <;> cases hk

/-- The operand to the right of an operator is of a tighter level. -/
theorem Admits.lt_of_operand (h : Admits power level) (hk : k.operatorLevel? = some power) :
    power < level := by
  rcases h with h | ⟨rfl, rfl | rfl⟩
  · exact h
  all_goals cases k <;> cases hk

theorem Ends.mono (h : Ends level k) (hl : level ≤ own) : Ends own k :=
  ⟨Power.le_trans h.1 hl, h.2⟩

theorem Ends.infixAbove (h : Ends level k) : Table.standard.infixAbove level k = none :=
  Table.standard_infixAbove_eq_none.2 h.1

end Monkey

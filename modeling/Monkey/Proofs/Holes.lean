import Monkey.Proofs.Faults
import Monkey.Proofs.Nodes

/-!
# Holes

Every hole in a tree is accounted for by a fault. A reader makes a hole only where it reports that
no expression begins with the current token; the hole is then handed on as it is, through parentheses
and past operators, until it comes to stand in one slot of one node, or it is dropped as an argument.
So a run reads no more holes than it notes faults of that kind, if those of the operand that it was
given are counted as well (`Run.missing_le`). Only the value of a return statement may be left out
without a fault, and it does not count. Main statement: `holes_le`.
-/

namespace Monkey

/-- The token with which no expression begins, if that is what is wrong. -/
def Cause.noOperand? : Cause → Option Token
  | .noOperand t => some t
  | _ => none

/-- How many slots of a node are holes where an expression should stand. -/
def Node.holes : Node → Nat
  | .expr (.unary _ e _) => e.isAbsent.toNat
  | .expr (.binary l _ r _) => l.isAbsent.toNat + r.isAbsent.toNat
  | .expr (.conditional _ c _ _ _) => c.isAbsent.toNat
  | .expr (.call f _ _ _) => f.isAbsent.toNat
  | .stmt (.binding _ _ v _) => v.isAbsent.toNat
  | .stmt (.expression _ v _) => v.isAbsent.toNat
  | _ => 0

/-- How many holes some nodes have. -/
def holesIn : List Node → Nat
  | [] => 0
  | n :: ns => n.holes + holesIn ns

/-- How many holes an expression brings along into a slot: those of its nodes, and itself if it is
one. -/
def Expr.missing (e : Expr) : Nat := e.isAbsent.toNat + holesIn e.nodes

variable {n : Node} {ns ms : List Node}

@[simp] theorem holesIn_cons : holesIn (n :: ns) = n.holes + holesIn ns := rfl

@[simp] theorem holesIn_append : holesIn (ns ++ ms) = holesIn ns + holesIn ms := by
  induction ns with
  | nil => exact (Nat.zero_add _).symm
  | cons n ns ih =>
    rw [List.cons_append, holesIn_cons, holesIn_cons, ih, Nat.add_assoc]

theorem holes_le_of_mem (h : n ∈ ns) : n.holes ≤ holesIn ns := by
  obtain ⟨front, behind, rfl⟩ := List.append_of_mem h
  rw [holesIn_append, holesIn_cons]
  omega

namespace Expr

variable {op t : Token} {l r e c f : Expr} {b : Block} {a : Option Block} {as : List Expr}
  {ps : List Symbol} {p : Span}

theorem missing_absent : absent.missing = 1 := rfl

/-- An operand is in its slot what it was by itself. -/
theorem missing_unary : (unary op e p).missing = e.missing := by
  simp [missing, nodes, isAbsent, Node.holes]

theorem missing_binary : (binary l op r p).missing = l.missing + r.missing := by
  simp only [missing, nodes, isAbsent, Node.holes, Bool.toNat_false, holesIn_cons, holesIn_append]
  omega

theorem missing_conditional : (conditional t c b a p).missing =
    c.missing + holesIn b.nodes + holesIn (a.elim [] Block.nodes) := by
  simp only [missing, nodes_conditional, isAbsent, Node.holes, Bool.toNat_false, holesIn_cons,
    holesIn_append]
  omega

theorem missing_function : (function t ps b p).missing = holesIn b.nodes := by
  simp [missing, nodes, isAbsent, Node.holes]

theorem missing_call : (call f t as p).missing = f.missing + holesIn (nodesAll as) := by
  simp only [missing, nodes, isAbsent, Node.holes, Bool.toNat_false, holesIn_cons, holesIn_append]
  omega

end Expr

section Statements

variable {t : Token} {x : Symbol} {v : Expr} {b : Block} {ss : List Stmt} {p : Span}

theorem holesIn_binding : holesIn (Stmt.binding t x v p).nodes = v.missing := rfl

/-- The value to be returned may be left out. -/
theorem holesIn_returning : holesIn (Stmt.returning t v p).nodes = holesIn v.nodes := Nat.zero_add _

theorem holesIn_expression : holesIn (Stmt.expression t v p).nodes = v.missing := rfl

theorem holesIn_blockStatement : holesIn (Stmt.block b).nodes = holesIn b.nodes := Nat.zero_add _

theorem holesIn_block : holesIn (Block.mk t ss p).nodes = holesIn (Stmt.nodesAll ss) :=
  Nat.zero_add _

end Statements

namespace Descent

variable {tbl : Table} {s s' : State} {e : Expr} {ss : List Stmt} {recovery : Recovery}

/-- How many operands were found missing so far. -/
def State.misses (s : State) : Nat := (s.found Cause.noOperand?).length

namespace State

theorem misses_of_log (h : s'.log = s.log) : s'.misses = s.misses := by
  rw [misses, found_of_log h, misses]

@[simp] theorem misses_advance (s : State) : s.advance.misses = s.misses :=
  misses_of_log s.log_advance

@[simp] theorem misses_passed (s : State) (k : Kind) : (s.passed k).misses = s.misses :=
  misses_of_log (s.log_passed k)

@[simp] theorem misses_expected (s : State) (k : Kind) : (s.expected k).misses = s.misses := by
  rw [misses, found_expected (fun _ _ => rfl), misses]

theorem misses_noOperand (s : State) (t : Token) (i : Nat) :
    (s.note (.noOperand t) i).misses = s.misses + 1 := by
  rw [misses, found_note, List.length_append]
  rfl

theorem misses_overflow (s : State) (t : Token) (i : Nat) :
    (s.note (.overflow t) i).misses = s.misses := by
  rw [misses, found_note, List.length_append]
  rfl

end State

/-- How many holes the tree of a phrase brings along. -/
def Phrase.missing : Phrase → Nat
  | .expression _ e | .opening _ e | .group e | .extension _ _ e | .following _ _ _ e => e.missing
  | .arguments es => holesIn (Expr.nodesAll es)
  | .parameters _ => 0
  | .block b => holesIn b.nodes
  | .alternative b => holesIn (b.elim [] Block.nodes)
  | .returned e => holesIn e.nodes
  | .ruled _ st | .statement st => holesIn st.nodes
  | .statements ss => holesIn (Stmt.nodesAll ss)

/-- How many of them the operand had that the phrase goes on from. -/
def Phrase.given : Phrase → Nat
  | .extension _ left _ | .following _ _ left _ => left.missing
  | _ => 0

/-- No literal is a hole, and a number that is too large is another fault. -/
theorem literal_missing (h : literal s = some (e, s')) : e.missing = 0 ∧ s'.misses = s.misses := by
  rcases literal_cases h with ⟨n, -, -, rfl, rfl⟩ | ⟨-, -, rfl, rfl⟩ | ⟨-, rfl, rfl⟩ |
    ⟨-, rfl, rfl⟩ | ⟨-, -, -, rfl, rfl⟩
  case inr.inl => exact ⟨rfl, by rw [State.misses_overflow, State.misses_advance]⟩
  all_goals exact ⟨rfl, State.misses_advance s⟩

/-- **A run reads no more holes than it notes faults for**, those of the given operand apart. -/
theorem Run.missing_le {p : Phrase} (h : Run tbl p s s') :
    p.missing + s.misses ≤ p.given + s'.misses := by
  induction h with
  | @hole s power h =>
    -- the only hole that is made, and the fault that goes with it
    have hnoted := State.misses_noOperand s.advance s.current s.current.span.start
    rw [State.misses_advance] at hnoted
    simp only [Phrase.missing, Phrase.given, Expr.missing_absent]
    omega
  | expression _ _ _ iho ihe =>
    simp only [Phrase.missing, Phrase.given] at iho ihe ⊢
    omega
  | literal h =>
    obtain ⟨he, hs⟩ := literal_missing h
    simp only [Phrase.missing, Phrase.given]
    omega
  | unary _ ih =>
    simp only [Phrase.missing, Phrase.given, State.misses_advance] at ih ⊢
    rwa [Expr.missing_unary]
  | opened _ ih => exact ih
  | conditional _ _ _ ihe ihb iha =>
    simp only [Phrase.missing, Phrase.given, State.misses_advance] at ihe ihb iha ⊢
    rw [Expr.missing_conditional]
    omega
  | function _ _ ihp ihb =>
    simp only [Phrase.missing, Phrase.given, State.misses_advance, State.misses_expected]
      at ihp ihb ⊢
    rw [Expr.missing_function]
    omega
  | group _ ih =>
    simp only [Phrase.missing, Phrase.given, State.misses_expected] at ih ⊢
    exact ih
  | stop => exact Nat.le_refl _
  | extend _ _ _ ihf ihe =>
    simp only [Phrase.missing, Phrase.given] at ihf ihe ⊢
    omega
  | binary _ ih =>
    simp only [Phrase.missing, Phrase.given, State.misses_advance] at ih ⊢
    rw [Expr.missing_binary]
    omega
  | call _ ih =>
    simp only [Phrase.missing, Phrase.given, State.misses_advance, State.misses_expected] at ih ⊢
    rw [Expr.missing_call]
    omega
  | comma _ _ ih =>
    rw [State.misses_advance] at ih
    exact ih
  | noArgument _ _ _ _ ihe iha =>
    -- the hole is dropped
    simp only [Phrase.missing, Phrase.given] at ihe iha ⊢
    omega
  | argument _ _ _ _ _ ihe iha =>
    simp only [Phrase.missing, Phrase.given, Expr.missing] at ihe iha ⊢
    rw [Expr.nodesAll, holesIn_append]
    omega
  | noParameter _ _ _ ih =>
    simp only [Phrase.missing, Phrase.given, State.misses_passed, State.misses_expected] at ih ⊢
    exact ih
  | parameter _ _ ih =>
    simp only [Phrase.missing, Phrase.given, State.misses_passed, State.misses_expected] at ih ⊢
    exact ih
  | block _ ih =>
    simp only [Phrase.missing, Phrase.given, State.misses_expected] at ih ⊢
    rw [holesIn_block]
    exact ih
  | alternative _ _ ih =>
    rw [State.misses_advance] at ih
    exact ih
  | noValue | noAlternative | argumentsEnd | parametersEnd | statementsEnd => exact Nat.le_refl _
  | value _ _ ih =>
    simp only [Phrase.missing, Phrase.given, Expr.missing] at ih ⊢
    omega
  | binding _ ih =>
    simp only [Phrase.missing, Phrase.given, State.misses_advance, State.misses_expected] at ih ⊢
    rw [holesIn_binding]
    exact ih
  | returning _ ih =>
    simp only [Phrase.missing, Phrase.given, State.misses_advance, State.misses_expected] at ih ⊢
    rw [holesIn_returning]
    exact ih
  | ruledBlock _ ih =>
    simp only [Phrase.missing, Phrase.given] at ih ⊢
    rw [holesIn_blockStatement]
    exact ih
  | bare _ ih =>
    simp only [Phrase.missing, Phrase.given, State.misses_passed] at ih ⊢
    rw [holesIn_expression]
    exact ih
  | statement _ ih => exact ih
  | statements _ _ _ ihs ihss =>
    simp only [Phrase.missing, Phrase.given] at ihs ihss ⊢
    rw [Stmt.nodesAll, holesIn_append]
    omega

theorem TopRun.missing_le (h : TopRun tbl recovery ss s s') :
    holesIn (Stmt.nodesAll ss) + s.misses ≤ s'.misses := by
  induction h with
  | done => exact Nat.le_of_eq (Nat.zero_add _)
  | next _ hs hr _ ih =>
    -- what is skipped notes nothing
    obtain ⟨ts, ht⟩ := recover_takes hr
    have hskipped := State.misses_of_log ht.log
    have hfirst := hs.missing_le
    simp only [Phrase.missing, Phrase.given] at hfirst
    rw [Stmt.nodesAll, holesIn_append]
    omega

end Descent

open Descent

/-- **Every hole is accounted for by a fault.** Whatever is done after faults, a program has no more
holes than operands were reported missing; and if none was, it has no hole. -/
theorem holes_le (source : String) (recovery : Recovery) :
    holesIn (read source recovery).program.nodes ≤
        ((read source recovery).diagnostics.filterMap (·.cause.noOperand?)).length ∧
      ((∀ d ∈ (read source recovery).diagnostics, d.cause.noOperand? = none) →
        ∀ n ∈ (read source recovery).program.nodes, n.holes = 0) := by
  obtain ⟨s', hrun, -, hdiag⟩ := read_run source recovery
  have hle : holesIn (read source recovery).program.nodes ≤
      ((read source recovery).diagnostics.filterMap (·.cause.noOperand?)).length := by
    rw [hdiag]
    exact Nat.le_trans (Nat.le_add_right _ _) hrun.missing_le
  refine ⟨hle, fun hnone n hn => ?_⟩
  rw [List.filterMap_eq_nil_iff.2 hnone] at hle
  exact Nat.le_zero.1 (Nat.le_trans (holes_le_of_mem hn) hle)

/-- A name and two marks are missing, but no operand. -/
theorem holes_le_openGroup :
    (∀ d ∈ (read "let 1 = (2" .lenient).diagnostics, d.cause.noOperand? = none) ∧
      (read "let 1 = (2" .lenient).diagnostics.length = 3 ∧
      ∀ n ∈ (read "let 1 = (2" .lenient).program.nodes, n.holes = 0 := by
  have hnone : ∀ d ∈ (read "let 1 = (2" .lenient).diagnostics, d.cause.noOperand? = none := by
    decide +kernel
  exact ⟨hnone, by decide +kernel, (holes_le "let 1 = (2" .lenient).2 hnone⟩

/-- Of three missing operands one stands in a slot, one is returned, and one is dropped. -/
example : holesIn (read "-(@); return +; f(/)" .lenient).program.nodes = 1 ∧
    ((read "-(@); return +; f(/)" .lenient).diagnostics.filterMap (·.cause.noOperand?)).length =
      3 := by decide +kernel

end Monkey

import Monkey.Proofs.ExitCode
import Monkey.Proofs.Portions

/-!
# Two ways to go on

Nothing is skipped behind a statement without a fault (`Run.resumes`). So as long as no statement
has a fault it makes no difference how reading goes on behind one: two runs by one table go the same
way (`PortionRun.agree`), and up to the first statement with a fault, that one included, they read
and note the same (`PortionRun.agree_upTo`). The exit code may tell the ways apart behind that
statement, if a fault there is too far on in its line for a report
(`Options.code_eq_iff_of_recovery`). Main statement: `recoveries_agree`.
-/

namespace Monkey

open Descent

namespace Portion

/-- Whether a fault is noted while the statement is read. -/
def isFaulty (p : Portion) : Bool := !p.noted.isEmpty

/-- What has been read and noted at the end of the statement. -/
def result (p : Portion) : Stmt × List Diagnostic := (p.statement, p.noted)

theorem noted_of_not_isFaulty {p : Portion} (h : p.isFaulty = false) : p.noted = [] := by
  unfold isFaulty at h
  simpa using h

end Portion

namespace Descent

variable {t : Table} {s s₁ s₂ s' : State} {recovery other : Recovery} {ps qs : List Portion}

/-- Behind a statement without a fault reading goes on with the next token. -/
theorem Run.resumes {p : Phrase} (h : Run t p s s₁) (hquiet : s.notedTo s₁ = [])
    (hr : recover recovery s.log.length s₁ = some ((), s₂)) : s₂ = s₁ := by
  have hdiagnostics := h.diagnostics
  rw [hquiet, List.append_nil] at hdiagnostics
  have hlog : s₁.log = s.log := List.reverse_inj.1 hdiagnostics
  have hstays : recover recovery s.log.length s₁ = some ((), s₁) := recover_of_log hlog
  rw [hstays] at hr
  obtain ⟨-, rfl⟩ := Prod.mk.inj (Option.some.inj hr)
  rfl

namespace PortionRun

/-- **Without faults there is no difference.** -/
theorem agree (h : PortionRun t recovery ps s s') (h' : PortionRun t other qs s s₂)
    (hquiet : ∀ p ∈ ps, p.noted = []) : qs = ps ∧ s₂ = s' := by
  induction h generalizing qs with
  | done hk =>
    cases h' with
    | done => exact ⟨rfl, rfl⟩
    | next hk' => exact absurd hk hk'
  | next hk hs hr _ ih =>
    cases h' with
    | done hk' => exact absurd hk' hk
    | next _ hs' hr' hps' =>
      obtain ⟨rfl, rfl⟩ := hs.unique hs'
      obtain ⟨hnoted, hrest⟩ := List.forall_mem_cons.1 hquiet
      obtain rfl := hs.resumes hnoted hr
      obtain rfl := hs.resumes hnoted hr'
      obtain ⟨rfl, rfl⟩ := ih hps' hrest
      exact ⟨rfl, rfl⟩

/-- **Up to the first fault there is no difference**, the statement that it is in included. -/
theorem agree_upTo (h : PortionRun t recovery ps s s') (h' : PortionRun t other qs s s₂) (k : Nat)
    (hquiet : ∀ p ∈ ps.take k, p.noted = []) :
    (qs.take (k + 1)).map Portion.result = (ps.take (k + 1)).map Portion.result := by
  induction h generalizing qs k with
  | done hk =>
    cases h' with
    | done => rfl
    | next hk' => exact absurd hk hk'
  | next hk hs hr _ ih =>
    cases h' with
    | done hk' => exact absurd hk' hk
    | next _ hs' hr' hps' =>
      obtain ⟨rfl, rfl⟩ := hs.unique hs'
      rw [List.take_succ_cons, List.take_succ_cons, List.map_cons, List.map_cons]
      cases k with
      | zero =>
        rw [List.take_zero, List.take_zero]
        rfl
      | succ k =>
        rw [List.take_succ_cons] at hquiet
        obtain ⟨hnoted, hrest⟩ := List.forall_mem_cons.1 hquiet
        obtain rfl := hs.resumes hnoted hr
        obtain rfl := hs.resumes hnoted hr'
        rw [ih hps' k hrest]

end PortionRun

end Descent

variable {source : String}

/-- A text without faults says the same, however reading would go on after one. -/
theorem read_eq_of_quiet {recovery : Recovery} (other : Recovery)
    (hquiet : (read source recovery).diagnostics = []) :
    read source other = read source recovery := by
  obtain ⟨s', hrun⟩ := portions_run source recovery
  obtain ⟨s'', hrun'⟩ := portions_run source other
  rw [(read_eq_portions source recovery).2, List.flatMap_eq_nil_iff] at hquiet
  obtain ⟨hps, rfl⟩ := hrun.agree hrun' hquiet
  rw [read_eq_of_run source other hrun'.topRun, read_eq_of_run source recovery hrun.topRun, hps]

theorem diagnostics_eq_nil_iff (recovery other : Recovery) :
    (read source recovery).diagnostics = [] ↔ (read source other).diagnostics = [] := by
  constructor
  · intro h
    rw [read_eq_of_quiet other h, h]
  · intro h
    rw [read_eq_of_quiet recovery h, h]

/-- Up to the first statement with a fault the same is read and noted. -/
theorem results_upTo {recovery : Recovery} (other : Recovery) {k : Nat}
    (hk : (portions source recovery).findIdx? Portion.isFaulty = some k) :
    ((portions source other).take (k + 1)).map Portion.result =
      ((portions source recovery).take (k + 1)).map Portion.result := by
  obtain ⟨s', hrun⟩ := portions_run source recovery
  obtain ⟨s'', hrun'⟩ := portions_run source other
  obtain ⟨hlt, -, hbefore⟩ := List.findIdx?_eq_some_iff_getElem.1 hk
  apply hrun.agree_upTo hrun' k
  intro p hp
  obtain ⟨i, hi, rfl⟩ := List.mem_take_iff_getElem.1 hp
  apply Portion.noted_of_not_isFaulty
  simpa using hbefore i (by omega)

namespace CommandLine.Options

variable (o : Options) (source : String)

/-- Whether all goes well does not depend on the way that is asked for. -/
theorem code_eq_zero_iff_of_recovery : ({ o with synchronize := true }.outcome source).code = 0 ↔
    ({ o with synchronize := false }.outcome source).code = 0 := by
  rw [code_eq_zero_iff, code_eq_zero_iff]
  exact or_congr_right (diagnostics_eq_nil_iff .synchronize .lenient)

/-- The exit code depends on the way that is asked for exactly if the program breaks off in one of
them only. -/
theorem code_eq_iff_of_recovery : ({ o with synchronize := true }.outcome source).code =
      ({ o with synchronize := false }.outcome source).code ↔
    o.tokens = true ∨ (read source .synchronize).diagnostics.any (·.isFarOut source) =
      (read source .lenient).diagnostics.any (·.isFarOut source) := by
  have hsynchronize := code_outcome { o with synchronize := true } source
  have hlenient := code_outcome { o with synchronize := false } source
  have hquiet : (read source .synchronize).diagnostics = [] ↔
    (read source .lenient).diagnostics = [] := diagnostics_eq_nil_iff _ _
  simp only [recovery, if_true, Bool.false_eq_true, if_false] at hsynchronize hlenient
  rw [hsynchronize, hlenient]
  cases htokens : o.tokens with
  | true => exact iff_of_true rfl (.inl rfl)
  | false =>
    by_cases hl : (read source .lenient).diagnostics = []
    · rw [hquiet.2 hl, hl]
      exact iff_of_true rfl (.inr rfl)
    · rw [if_neg (mt hquiet.1 hl), if_neg hl]
      cases (read source .synchronize).diagnostics.any (·.isFarOut source) <;>
        cases (read source .lenient).diagnostics.any (·.isFarOut source) <;> decide

end CommandLine.Options

/-- **Both ways to go on agree up to the first statement with a fault.** The statements and the
faults of a text are those of its portions. If no portion has a fault, a text says the same in both
ways and has no faults. Otherwise the statements up to the first one with a fault are the same, and
so are the faults that are noted up to its end. So one way finds a fault exactly if the other does,
and the program ends well in both or in neither. Its exit code is the same in both, unless one of
them notes a fault that is too far on in its line for a report and the other one does not. -/
theorem recoveries_agree (source : String) :
    (∀ recovery,
        (read source recovery).program.body = (portions source recovery).map (·.statement) ∧
          (read source recovery).diagnostics = (portions source recovery).flatMap (·.noted)) ∧
      ((portions source .lenient).findIdx? Portion.isFaulty = none →
        read source .synchronize = read source .lenient ∧
          (read source .lenient).diagnostics = []) ∧
      (∀ k, (portions source .lenient).findIdx? Portion.isFaulty = some k →
        (read source .synchronize).program.body.take (k + 1) =
            (read source .lenient).program.body.take (k + 1) ∧
          ((portions source .synchronize).take (k + 1)).flatMap (·.noted) =
            ((portions source .lenient).take (k + 1)).flatMap (·.noted)) ∧
      ((read source .synchronize).diagnostics = [] ↔ (read source .lenient).diagnostics = []) ∧
      ∀ o : CommandLine.Options,
        (({ o with synchronize := true }.outcome source).code = 0 ↔
          ({ o with synchronize := false }.outcome source).code = 0) ∧
        (({ o with synchronize := true }.outcome source).code =
            ({ o with synchronize := false }.outcome source).code ↔
          o.tokens = true ∨ (read source .synchronize).diagnostics.any (·.isFarOut source) =
            (read source .lenient).diagnostics.any (·.isFarOut source)) := by
  refine ⟨read_eq_portions source, fun hnone => ?_, fun k hk => ?_, diagnostics_eq_nil_iff _ _,
    fun o => ⟨o.code_eq_zero_iff_of_recovery source, o.code_eq_iff_of_recovery source⟩⟩
  · have hquiet : (read source .lenient).diagnostics = [] := by
      rw [(read_eq_portions source .lenient).2, List.flatMap_eq_nil_iff]
      intro p hp
      exact Portion.noted_of_not_isFaulty (List.findIdx?_eq_none_iff.1 hnone p hp)
    exact ⟨read_eq_of_quiet .synchronize hquiet, hquiet⟩
  · have hresults := results_upTo .synchronize hk
    constructor
    · have hstatements := congrArg (List.map Prod.fst) hresults
      rw [List.map_map, List.map_map] at hstatements
      rw [(read_eq_portions source _).1, (read_eq_portions source _).1, ← List.map_take,
        ← List.map_take]
      exact hstatements
    · have hnoted := congrArg (List.flatMap Prod.snd) hresults
      rw [List.flatMap_map, List.flatMap_map] at hnoted
      exact hnoted

/-- A parenthesis is not closed. What follows is read as three statements more or is skipped, but
the two statements up to there are the same. -/
theorem recoveries_agree_unclosed :
    ((portions "a; let x = (1; let y = 3; z;" .lenient).length = 6 ∧
      (portions "a; let x = (1; let y = 3; z;" .synchronize).length = 3) ∧
      (portions "a; let x = (1; let y = 3; z;" .lenient).findIdx? Portion.isFaulty = some 1 ∧
      (read "a; let x = (1; let y = 3; z;" .synchronize).program.body.take 2 =
        (read "a; let x = (1; let y = 3; z;" .lenient).program.body.take 2 := by
  have hfault : (portions "a; let x = (1; let y = 3; z;" .lenient).findIdx? Portion.isFaulty =
    some 1 := by decide +kernel
  obtain ⟨-, -, hupTo, -, -⟩ := recoveries_agree "a; let x = (1; let y = 3; z;"
  exact ⟨by decide +kernel, hfault, (hupTo 1 hfault).1⟩

/-- Two parentheses stand so far apart that there is no report of the second one: the program breaks
off at it, unless it is skipped. -/
theorem recoveries_differ_parted :
    (CommandLine.Options.outcome ⟨none, false, false⟩
        (String.ofList (')' :: (List.replicate 65534 ' ' ++ [')'])))).code = 101 ∧
      (CommandLine.Options.outcome ⟨none, false, true⟩
        (String.ofList (')' :: (List.replicate 65534 ' ' ++ [')'])))).code = 1 := by
  have hfar : Text.fieldLimit ≤ 1 + 65534 := by decide
  have hlimit : 1 + 65534 ≤ Span.limit := by decide
  exact ⟨Parted.code_lenient hfar hlimit, Parted.code_synchronize hlimit⟩

end Monkey

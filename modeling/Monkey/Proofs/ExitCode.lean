import Monkey.CommandLine
import Monkey.Proofs.Layout
import Monkey.Proofs.Reports

/-!
# Exit codes

The code with which the program ends tells three kinds of text apart: those without a fault, those
with faults, and those with a fault that there is no report of, at which the program breaks off
(`Options.code_outcome`). There is no report of a fault exactly if it is too far on in its line
(`Diagnostic.report?_isNone`). A text of the third kind needs no more than two parentheses, which
are far enough apart (`Parted.code_lenient`); if what stands behind the first fault is skipped, it
is one of the second kind (`Parted.code_synchronize`).
-/

namespace Monkey

open Descent Text

variable {source : String} {recovery : Recovery} {d : Diagnostic}

/-- Whether a diagnostic is about a place too far on in its line for a caret. -/
def Diagnostic.isFarOut (d : Diagnostic) (source : String) : Bool :=
  (Line.find? source d.position).any fun line => fieldLimit ≤ line.indentedColumn

/-- **There is no report of a fault** exactly if its place lies too far on in its line. -/
theorem Diagnostic.report?_isNone (hd : d ∈ (read source recovery).diagnostics) (file : String) :
    (d.report? source file).isNone = d.isFarOut source := by
  cases hl : Line.find? source d.position with
  | none => rw [report?, isFarOut, hl, Option.isNone_some, Option.any_none]
  | some l =>
    have hnumber : l.number ≤ 1 + Span.limit :=
      Nat.le_trans (Line.number_le_of_find? hl) (Nat.add_le_add_left (position_le_limit hd) 1)
    rw [Line.report?_of_find? hl, Option.isNone_map, isFarOut, hl, Option.any_some, Bool.eq_iff_iff,
      Option.isNone_iff_eq_none, decide_eq_true_iff]
    exact Line.report?_eq_none_iff hnumber

namespace Descent

/-- A token that nothing begins with is read as a statement, and noted. -/
theorem Run.stray {t : Table} {s : State} (hs : t.statementRule s.kind = none)
    (hp : t.prefixRule s.kind = none) : ∃ st, Run t (.statement st) s
      ((s.advance.note (.noOperand s.current) s.current.span.start).passed .semicolon) := by
  have hbare : ∃ st, Run t (.ruled .expression st) s
      ((s.advance.note (.noOperand s.current) s.current.span.start).passed .semicolon) :=
    ⟨_, .bare (.hole hp)⟩
  obtain ⟨st, hst⟩ := hbare
  refine ⟨st, .statement ?_⟩
  rw [hs]
  exact hst

/-- The last token is skipped. -/
theorem collect_skip_last {stops : Kind → Bool} {s : State} (hstops : stops s.kind = false)
    (hlast : s.left = 1) (hend : stops .eof = true) :
    collect stops skip s = some ([], s.advance) := by
  have hgoes : ¬stops s.kind = true := by
    rw [hstops]
    exact Bool.false_ne_true
  have hleft : s.advance.left = 0 := by rw [State.left_advance, hlast]
  rw [collect, if_neg hgoes, skip_apply]
  dsimp only
  rw [dif_pos (by omega), collect, State.kind_of_left hleft, if_pos hend]
  rfl

end Descent

namespace CommandLine

/-- **Reports are written one by one**: all of them, or those in front of the first fault that there
is no report of. -/
theorem writeReports_cases (source file written : String) (ds : List Diagnostic) :
    (∃ reports, ds.map (·.report? source file) = reports.map some ∧
        writeReports source file written ds = .ok (written ++ String.join reports)) ∨
      ∃ front d behind reports, ds = front ++ d :: behind ∧ d.report? source file = none ∧
        front.map (·.report? source file) = reports.map some ∧
        writeReports source file written ds = .error (written ++ String.join reports) := by
  induction ds generalizing written with
  | nil => exact .inl ⟨[], rfl, by rw [writeReports, String.join_nil, String.append_empty]⟩
  | cons d ds ih =>
    cases hd : d.report? source file with
    | none =>
      refine .inr ⟨[], d, ds, [], rfl, hd, rfl, ?_⟩
      rw [writeReports, hd, String.join_nil, String.append_empty]
    | some report =>
      have hstep : writeReports source file written (d :: ds) =
          writeReports source file (written ++ report) ds := by
        rw [writeReports, hd]
      rcases ih (written ++ report) with ⟨reports, hall, hwrite⟩ |
        ⟨front, e, behind, reports, rfl, he, hfront, hwrite⟩
      · refine .inl ⟨report :: reports, ?_, ?_⟩
        · rw [List.map_cons, hd, hall, List.map_cons]
        · rw [hstep, hwrite, String.join_cons, String.append_assoc]
      · refine .inr ⟨d :: front, e, behind, report :: reports, rfl, he, ?_, ?_⟩
        · rw [List.map_cons, hd, hfront, List.map_cons]
        · rw [hstep, hwrite, String.join_cons, String.append_assoc]

namespace Options

/-- **The exit code** for a text tells whether it has faults, and whether one of them is too far on
in its line, unless its tokens are asked for. -/
theorem code_outcome (o : Options) (source : String) :
    (o.outcome source).code =
      if o.tokens then 0
      else if (read source o.recovery).diagnostics = [] then 0
      else if (read source o.recovery).diagnostics.any (·.isFarOut source) then brokenCode
      else 1 := by
  unfold outcome
  split
  · rfl
  dsimp only
  split
  · next hquiet => rw [if_pos hquiet]
  next ds hfaults =>
    rw [if_neg hfaults]
    rcases writeReports_cases source o.file "" (read source o.recovery).diagnostics with
      ⟨reports, hall, hwrite⟩ | ⟨front, d, behind, reports, hds, hd, -, hwrite⟩
    · have hnear : (read source o.recovery).diagnostics.any (·.isFarOut source) = false := by
        rw [List.any_eq_false]
        intro d hd
        have hreport : d.report? source o.file ∈ reports.map some := hall ▸ List.mem_map_of_mem hd
        obtain ⟨report, -, hsome⟩ := List.mem_map.1 hreport
        rw [← Diagnostic.report?_isNone hd o.file, ← hsome]
        exact Bool.false_ne_true
      rw [hwrite, hnear]
      rfl
    · have hmem : d ∈ (read source o.recovery).diagnostics :=
        hds ▸ List.mem_append_right _ List.mem_cons_self
      have hfar : (read source o.recovery).diagnostics.any (·.isFarOut source) = true := by
        refine List.any_eq_true.2 ⟨d, hmem, ?_⟩
        rw [← Diagnostic.report?_isNone hmem o.file, hd]
        rfl
      rw [hwrite, hfar]
      rfl

theorem code_eq_zero_iff (o : Options) (source : String) : (o.outcome source).code = 0 ↔
    o.tokens = true ∨ (read source o.recovery).diagnostics = [] := by
  rw [code_outcome]
  split
  · next htokens => exact iff_of_true rfl (.inl htokens)
  next htokens =>
    split
    · next hquiet => exact iff_of_true rfl (.inr hquiet)
    next hfaults =>
      refine iff_of_false ?_ (not_or.2 ⟨htokens, hfaults⟩)
      split
      · decide
      · decide

end Options

end CommandLine

/-! Two parentheses with blanks between them, neither of which has a place in the language -/

namespace Parted

open CommandLine

/-- The text, by the number of blanks. -/
def text (blanks : Nat) : String := String.ofList (')' :: (List.replicate blanks ' ' ++ [')']))

/-- The parenthesis at an offset. -/
def closing (offset : Nat) : Token := ⟨.closeParen, ")", .between offset (offset + 1)⟩

/-- The fault at a parenthesis. -/
def astray (offset : Nat) : Diagnostic := ⟨.noOperand (closing offset), (closing offset).span.start⟩

variable (n : Nat)

theorem width_blanks : Text.width (List.replicate n ' ') = n := by
  rw [Text.width_eq_length_iff.2 fun c hc => ?_, List.length_replicate]
  rw [List.eq_of_mem_replicate hc]
  rfl

theorem drain_text :
    (Scanner.ofString (text n)).drain = ⟨[closing 0, closing (1 + n)], 1 + n + 1⟩ := by
  have hnone : ∀ c ∈ ([] : List Char), Lexeme.isGap c = true := List.forall_mem_nil _
  have hblanks : ∀ c ∈ List.replicate n ' ', Lexeme.isGap c = true := by
    intro c hc
    rw [List.eq_of_mem_replicate hc]
    rfl
  have hmark : Lexeme.Spelled ⟨.closeParen, [')']⟩ := .mark rfl
  have hends : ∀ rest, Lexeme.EndsBefore ⟨.closeParen, [')']⟩ rest :=
    fun _ => Lexeme.endsBefore_mark (by decide) fun _ _ => rfl
  have hfirst : (Scanner.ofString (text n)).read? =
      some (closing 0, ⟨1, List.replicate n ' ' ++ [')']⟩) := by
    rw [Scanner.ofString, text, String.toList_ofList]
    exact Scanner.read?_of_spelled hnone hmark (hends _) 0
  have hsecond : Scanner.read? ⟨1, List.replicate n ' ' ++ [')']⟩ =
      some (closing (1 + n), ⟨1 + n + 1, []⟩) := by
    have hread := Scanner.read?_of_spelled hblanks hmark (hends []) 1
    rwa [width_blanks] at hread
  have hend : Scanner.read? ⟨1 + n + 1, []⟩ = none := Scanner.read?_eq_none rfl
  rw [Scanner.drain_of_read?_some hfirst, Scanner.drain_of_read?_some hsecond,
    Scanner.drain_of_read?_none hend]
  rfl

/-- The state behind a parenthesis, with some tokens to come and some faults noted. -/
def behind (offset : Nat) (ahead : List Token) (log : List Diagnostic) : State :=
  ⟨some (closing offset), ⟨ahead, 1 + n + 1⟩, log⟩

theorem kind_start : (State.start (Scanner.ofString (text n)).drain).kind ≠ .eof := by
  have hkind : Kind.closeParen ≠ .eof := by decide
  rw [drain_text]
  exact hkind

/-- The first parenthesis is noted in either way. -/
theorem run_first : ∃ st, Run .standard (.statement st) (.start (Scanner.ofString (text n)).drain)
    (behind n 0 [closing (1 + n)] [astray 0]) := by
  rw [drain_text]
  exact Run.stray rfl rfl

theorem diagnostics_lenient :
    (read (text n) .lenient).diagnostics = [astray 0, astray (1 + n)] := by
  have hkind : Kind.closeParen ≠ .eof := by decide
  obtain ⟨st, hfirst⟩ := run_first n
  have hsecond : ∃ st, Run .standard (.statement st) (behind n 0 [closing (1 + n)] [astray 0])
    (behind n (1 + n) [] [astray (1 + n), astray 0]) := Run.stray rfl rfl
  obtain ⟨st', hsecond⟩ := hsecond
  have hrun : TopRun .standard .lenient [st, st'] (.start (Scanner.ofString (text n)).drain)
      (behind n (1 + n) [] [astray (1 + n), astray 0]) :=
    .next (kind_start n) hfirst rfl (.next hkind hsecond rfl (.done rfl))
  rw [read_eq_of_run _ _ hrun]
  rfl

theorem diagnostics_synchronize :
    (read (text n) .synchronize).diagnostics = [astray 0] := by
  obtain ⟨st, hfirst⟩ := run_first n
  have hcollect : collect (fun k => endsStatement k || k == .eof) skip
      (behind n 0 [closing (1 + n)] [astray 0]) =
        some ([], behind n (1 + n) [] [astray 0]) := collect_skip_last rfl rfl rfl
  have hskip : skipStatement (behind n 0 [closing (1 + n)] [astray 0]) =
    some ((), behind n (1 + n) [] [astray 0]) := bind_eq_some_iff.2 ⟨_, _, hcollect, rfl⟩
  have hrun : TopRun .standard .synchronize [st] (.start (Scanner.ofString (text n)).drain)
      (behind n (1 + n) [] [astray 0]) :=
    .next (kind_start n) hfirst hskip (.done rfl)
  rw [read_eq_of_run _ _ hrun]
  rfl

variable {n}

/-- Both parentheses stand in one line, which is not indented. -/
theorem isFarOut_astray {offset : Nat} (hoffset : offset ≤ 1 + n) (hlimit : 1 + n ≤ Span.limit) :
    (astray offset).isFarOut (text n) = decide (fieldLimit ≤ offset) := by
  have hsource : (text n).toList = [] ++ (')' :: (List.replicate n ' ' ++ [')']) ++ []) := by
    rw [text, String.toList_ofList, List.append_nil, List.nil_append]
  have hclear : '\n' ∉ ')' :: (List.replicate n ' ' ++ [')']) := by
    simp only [List.mem_cons, List.mem_append, List.mem_replicate, List.not_mem_nil, or_false,
      not_or, not_and]
    exact ⟨by decide, fun _ => by decide, by decide⟩
  have hcolumn : offset < Text.width (')' :: (List.replicate n ' ' ++ [')'])) := by
    rw [Text.width_cons, Text.width_append, width_blanks]
    exact Nat.lt_of_le_of_lt hoffset (Nat.lt_succ_self _)
  have hposition : (astray offset).position = offset :=
    Nat.min_eq_left (Nat.le_trans hoffset hlimit)
  have hfind := Line.find?_of_cut hsource (fun c hc => nomatch hc) hclear (fun c hc => nomatch hc)
    hcolumn
  rw [Text.width_nil, Nat.zero_add] at hfind
  rw [Diagnostic.isFarOut, hposition, hfind]
  rfl

/-- The second fault is the one that is too far on. -/
theorem code_lenient (hfar : fieldLimit ≤ 1 + n) (hlimit : 1 + n ≤ Span.limit) :
    (Options.outcome ⟨none, false, false⟩ (text n)).code = brokenCode := by
  have hsecond : (astray (1 + n)).isFarOut (text n) = true :=
    (isFarOut_astray (Nat.le_refl _) hlimit).trans (decide_eq_true hfar)
  have hfaults : (read (text n) (Options.recovery ⟨none, false, false⟩)).diagnostics =
    [astray 0, astray (1 + n)] := diagnostics_lenient n
  rw [Options.code_outcome, hfaults, if_neg Bool.false_ne_true, if_neg (List.cons_ne_nil _ _),
    if_pos]
  rw [List.any_cons, List.any_cons, hsecond, Bool.true_or, Bool.or_true]

/-- Behind the first fault the other one is skipped. -/
theorem code_synchronize (hlimit : 1 + n ≤ Span.limit) :
    (Options.outcome ⟨none, false, true⟩ (text n)).code = 1 := by
  have hfirst : (astray 0).isFarOut (text n) = false := isFarOut_astray (Nat.zero_le _) hlimit
  have hfaults : (read (text n) (Options.recovery ⟨none, false, true⟩)).diagnostics =
    [astray 0] := diagnostics_synchronize n
  rw [Options.code_outcome, hfaults, if_neg Bool.false_ne_true, if_neg (List.cons_ne_nil _ _),
    if_neg]
  rw [List.any_cons, hfirst, Bool.false_or, List.any_nil]
  exact Bool.false_ne_true

end Parted

end Monkey

import Monkey.Proofs.Displacement
import Monkey.Proofs.Layout

/-!
# Texts that are laid out anew

The place of a lexeme says nothing about how it is read. With all offsets left out, two texts of the
same lexemes are the same to a reader (`erasedStart_eq`), and what it reads and notes there is what it
reads and notes in either text, with the offsets left out. Main statement: `read_relayout`.
-/

namespace Monkey

open Descent

/-- What a cause says in a report: its name, a sentence and a piece of advice. -/
def Cause.wording (c : Cause) : String × String × Option String := (c.name, c.message, c.tip?)

/-- The wording of a cause does not depend on places. -/
theorem Cause.wording_mapSpan (f : Span → Span) (c : Cause) :
    (c.mapSpan f).wording = c.wording := by
  cases c <;> rfl

theorem Span.erase_eq (s s' : Span) : s.erase = s'.erase := rfl

/-- A token without its span is told by its lexeme. -/
theorem Token.mapSpan_erase (t : Token) :
    t.mapSpan .erase = ⟨t.lexeme.kind, String.ofList t.lexeme.chars, ⟨0, 0⟩⟩ := by
  unfold Token.mapSpan Span.erase Token.lexeme
  rw [String.ofList_toList]

/-- Before any token of a text is taken, with all offsets left out. -/
def erasedStart (source : String) : State :=
  .start ⟨(Scanner.ofString source).drain.ahead.map (Token.mapSpan .erase), 0⟩

variable {a b : String}

/-- Texts of the same lexemes look the same from the start, but for their offsets. -/
theorem erasedStart_eq (h : (tokenize a).map Token.lexeme = (tokenize b).map Token.lexeme) :
    erasedStart a = erasedStart b := by
  have hahead : (Scanner.ofString a).drain.ahead.map Token.lexeme =
      (Scanner.ofString b).drain.ahead.map Token.lexeme := by
    unfold tokenize TokenStream.toList at h
    rw [List.map_append, List.map_append] at h
    exact (List.append_inj' h rfl).1
  have herase : Token.mapSpan .erase = (fun l : Lexeme =>
      (⟨l.kind, String.ofList l.chars, ⟨0, 0⟩⟩ : Token)) ∘ Token.lexeme :=
    funext Token.mapSpan_erase
  unfold erasedStart
  rw [herase, ← List.map_map, ← List.map_map, hahead]

theorem start_displaced_erasedStart (source : String) :
    (State.start (Scanner.ofString source).drain).Displaced (fun _ => 0) (erasedStart source) :=
  ⟨rfl, rfl, rfl, .inl rfl⟩

/-- **A text may be laid out anew.** Two texts of the same lexemes are read as programs that differ
in places only, and so have the same text, and as many faults are noted in the one as in the other,
with the same wording one by one. -/
theorem read_relayout (h : (tokenize a).map Token.lexeme = (tokenize b).map Token.lexeme)
    (recovery : Recovery) :
    (read a recovery).program.mapSpan .erase = (read b recovery).program.mapSpan .erase ∧
      (read a recovery).program.text = (read b recovery).program.text ∧
      (read a recovery).diagnostics.map (·.cause.wording) =
        (read b recovery).diagnostics.map (·.cause.wording) := by
  obtain ⟨r, hrun, hdiagnostics⟩ :=
    read_displaced monotone_const (start_displaced_erasedStart a) recovery
  obtain ⟨r', hrun', hdiagnostics'⟩ :=
    read_displaced monotone_const (start_displaced_erasedStart b) recovery
  -- both runs begin in the same state, so they are the same run
  rw [erasedStart_eq h] at hrun
  obtain ⟨hbody, rfl⟩ := hrun.unique hrun'
  have hprogram : (read a recovery).program.mapSpan .erase =
      (read b recovery).program.mapSpan .erase :=
    congrArg₂ Program.mk hbody.symm (Span.erase_eq _ _)
  have herased : (read a recovery).diagnostics.map (Diagnostic.displace fun _ => 0) =
      (read b recovery).diagnostics.map (Diagnostic.displace fun _ => 0) :=
    hdiagnostics.symm.trans hdiagnostics'
  have hwording : (fun d : Diagnostic => d.cause.wording) =
      (·.cause.wording) ∘ Diagnostic.displace fun _ => 0 :=
    funext fun d => (Cause.wording_mapSpan _ d.cause).symm
  refine ⟨hprogram, ?_, ?_⟩
  · rw [← Program.text_mapSpan .erase, hprogram, Program.text_mapSpan]
  · rw [hwording, ← List.map_map, herased, List.map_map]

/-- A call that is not closed, on one line and on three, with wide gaps. -/
theorem read_relayout_openCall :
    (tokenize "f(1 2;x").map Token.lexeme = (tokenize "f (\n\t1 2\n ; x ").map Token.lexeme ∧
      (read "f(1 2;x" .synchronize).diagnostics ≠ [] ∧
      (read "f(1 2;x" .synchronize).program.mapSpan .erase =
        (read "f (\n\t1 2\n ; x " .synchronize).program.mapSpan .erase := by
  have h : (tokenize "f(1 2;x").map Token.lexeme =
      (tokenize "f (\n\t1 2\n ; x ").map Token.lexeme := by decide +kernel
  exact ⟨h, by decide +kernel, (read_relayout h .synchronize).1⟩

end Monkey

import Monkey.Proofs.GrammarSound
import Monkey.Proofs.Recoveries
import Monkey.Proofs.Seams

/-!
# One text behind another

Behind a text that ends on a semicolon and has no fault, any other text is read as it would be by
itself, but further on. No expression ends on a semicolon (`Derives.endsOpen`), so at the seam a
statement has come to its end, and nothing of the second text goes on with the first
(`Derives.topRun_append`). Main statement: `read_append`.
-/

namespace Monkey

open Descent

variable {f : Form} {ts us : List Token} {t : Token} {ss rest : List Stmt} {s s₁ s' : State}
  {recovery other : Recovery} {a b : String}

/-- The last of the tokens is no semicolon. -/
def EndsOpen (ts : List Token) : Prop := ∀ t ∈ ts.getLast?, t.kind ≠ .semicolon

theorem endsOpen_nil : EndsOpen [] := fun t ht => by cases ht

theorem EndsOpen.append (hts : EndsOpen ts) (hus : EndsOpen us) : EndsOpen (ts ++ us) := by
  intro t ht
  rw [List.getLast?_append] at ht
  rcases Option.or_eq_some_iff.1 ht with ht | ⟨-, ht⟩
  · exact hus t ht
  · exact hts t ht

/-- What stands in front of a token that is no semicolon makes no difference. -/
theorem EndsOpen.behind (hk : t.kind ≠ .semicolon) (h : EndsOpen us) (ts : List Token) :
    EndsOpen (ts ++ t :: us) := by
  intro u hu
  rw [List.getLast?_append, List.getLast?_cons, Option.some_or] at hu
  cases hlast : us.getLast? with
  | none =>
    rw [hlast] at hu
    cases hu
    exact hk
  | some v =>
    rw [hlast] at hu
    cases hu
    exact h _ hlast

/-- Whether the tokens of a form may end on a semicolon. -/
def Form.EndsOpen : Form → List Token → Prop
  | .expression _ _, ts | .block _, ts | .alternative _, ts => Monkey.EndsOpen ts
  | _, _ => True

/-- **No expression ends on a semicolon.** -/
theorem Derives.endsOpen (h : Derives f ts) : f.EndsOpen ts := by
  induction h with
  | tighter _ _ ih => exact ih
  | @binary _ _ _ _ _ op _ _ ho _ _ _ ht _ ihr =>
    have hk : op.kind ≠ .semicolon := by
      intro hk
      rw [hk] at ho
      cases ho
    exact ht ▸ EndsOpen.behind hk ihr _
  | @unary _ _ op _ ho _ ht ih =>
    have hk : op.kind ≠ .semicolon := by rcases ho with ho | ho <;> rw [ho] <;> decide
    exact ht ▸ EndsOpen.behind hk ih []
  | call _ hc _ _ ht => exact ht ▸ EndsOpen.behind (hc ▸ by decide) endsOpen_nil _
  | integer h => exact EndsOpen.behind (h ▸ by decide) endsOpen_nil []
  | identifier h => exact EndsOpen.behind (h ▸ by decide) endsOpen_nil []
  | truth h => exact EndsOpen.behind (h ▸ by decide) endsOpen_nil []
  | falsehood h => exact EndsOpen.behind (h ▸ by decide) endsOpen_nil []
  | group _ hc => exact EndsOpen.behind (hc ▸ by decide) endsOpen_nil _
  | conditional _ _ hc _ _ _ ht _ ihb iha =>
    exact ht ▸ EndsOpen.behind (hc ▸ by decide) (EndsOpen.append ihb iha) _
  | function _ _ hc _ _ ht _ ihb => exact ht ▸ EndsOpen.behind (hc ▸ by decide) ihb _
  | block _ hc _ ht => exact ht ▸ EndsOpen.behind (hc ▸ by decide) endsOpen_nil _
  | noAlternative => exact endsOpen_nil
  | alternative h _ ih => exact EndsOpen.behind (h ▸ by decide) ih []
  | _ => trivial

/-- Where a statement begins, a text does not end. -/
theorem kind_ne_eof_of_begins {k : Kind} (h : (Table.standard.statementRule k).isSome = true ∨
    (Table.standard.prefixRule k).isSome = true) : k ≠ .eof := by
  rintro rfl
  have hopen := (endsBlock_of_begins h).2.2
  cases hopen

/-- **Statements that end on a semicolon are read in front of any others.** -/
theorem Derives.topRun_append (h : Derives (.statements ss) ts)
    (hlast : ∀ t ∈ ts.getLast?, t.kind = .semicolon) (ht : Takes ts s s₁)
    (hrest : TopRun .standard recovery rest s₁ s') :
    TopRun .standard recovery (ss ++ rest) s s' := by
  induction ss generalizing s ts with
  | nil =>
    cases h with
    | statementsEnd =>
      cases ht
      exact hrest
  | cons st ss ih =>
    cases h with
    | @statement ts us _ _ hs hss =>
      obtain ⟨s₂, hts, hus⟩ := ht.split
      obtain ⟨t, behind, rfl, hbegins⟩ := hs.begins
      have hk : s.kind ≠ .eof := by
        rw [State.kind, hts.uncons.1]
        exact kind_ne_eof_of_begins hbegins
      have hbehind : ∀ u ∈ us.getLast?, u.kind = .semicolon := by
        intro u hu
        apply hlast u
        rw [List.getLast?_append, hu]
        rfl
      exact .next hk (hs.reads hts) (recover_of_log hts.log) (ih hss hbehind hus)
    | @unended ts us t e _ he hss hu =>
      obtain ⟨s₂, hts, hus⟩ := ht.split
      obtain ⟨u, behind, hcons, hbegins⟩ := he.begins
      obtain ⟨rfl, rfl⟩ := List.cons.inj hcons
      have hk : s.kind ≠ .eof := by
        rw [State.kind, hts.uncons.1]
        exact kind_ne_eof_of_begins (.inr hbegins)
      cases us with
      | nil =>
        -- the expression would be the last statement, and would have to end on a semicolon
        rw [List.append_nil] at hlast
        have hend := List.getLast?_eq_some_getLast (List.cons_ne_nil t ts)
        exact absurd (hlast _ hend) (he.endsOpen _ hend)
      | cons u us =>
        have hbehind : ∀ v ∈ (u :: us).getLast?, v.kind = .semicolon := by
          intro v hv
          apply hlast v
          rw [List.getLast?_append, hv]
          rfl
        obtain ⟨helse, hopen, -⟩ := endsBlock_of_begins (hss.begins u rfl)
        have hkind : s₂.kind = u.kind := by rw [State.kind, hus.uncons.1]
        have hends : Ends .lowest s₂.kind := by
          rw [hkind]
          exact ⟨Table.continues_eq_false_iff.1 (hu u rfl), helse⟩
        have hrun := bare_reads he he.reads hts hends (hkind ▸ hopen)
        exact .next hk hrun (recover_of_log hts.log) (ih hss hbehind hus)

/-- The tokens of two texts, the first of which ends on a semicolon. -/
theorem tokenize_append (hzero : '\x00' ∉ a.toList)
    (hlast : ∀ t ∈ (Scanner.ofString a).drain.ahead.getLast?, t.kind = .semicolon)
    (hsize : (a ++ b).utf8ByteSize ≤ Span.limit) :
    tokenize (a ++ b) = (Scanner.ofString a).drain.ahead ++
      (tokenize b).map (Token.mapSpan (.displace (· + a.utf8ByteSize))) := by
  have hnonzero : ∀ c ∈ a.toList, c ≠ '\x00' := by
    rintro c hc rfl
    exact hzero hc
  have hread : Text.beforeZero (a ++ b).toList = a.toList ++ Text.beforeZero b.toList := by
    rw [String.toList_append, Text.beforeZero_append hnonzero]
  have hb : Splits (0 + Text.width a.toList) (Text.beforeZero b.toList)
      ((tokenize b).map (Token.mapSpan (.displace (· + a.utf8ByteSize)))) := by
    obtain ⟨behind, hbytes, -⟩ := Text.beforeZero_rest b.toList
    rw [String.utf8ByteSize_append, ← Text.width_toList b, hbytes, Text.width_append] at hsize
    rw [Text.width_toList]
    exact (splits_tokenize b).shift (by omega)
  have hjoined := (splits_whole hnonzero).append hlast hb
  rw [← hread] at hjoined
  exact hjoined.eq_tokenize.symm

/-- Behind the tokens of the first text a reader stands as at the start of the second one, but
further on. -/
theorem start_displaced_behind (hsize : a.utf8ByteSize ≤ Span.limit)
    (htokens : tokenize (a ++ b) = (Scanner.ofString a).drain.ahead ++
      (tokenize b).map (Token.mapSpan (.displace (· + a.utf8ByteSize)))) :
    ∃ s₁, Takes (Scanner.ofString a).drain.ahead (.start (Scanner.ofString (a ++ b)).drain) s₁ ∧
      (State.start (Scanner.ofString b).drain).Displaced (· + a.utf8ByteSize) s₁ := by
  unfold tokenize TokenStream.toList at htokens
  rw [List.map_append, ← List.append_assoc] at htokens
  obtain ⟨hahead, hfinal⟩ := List.append_inj' htokens rfl
  obtain ⟨s₁, ht, hs₁⟩ := Takes.exists_of_ahead
    (s := .start (Scanner.ofString (a ++ b)).drain) hahead
  have hplaced := drain_ofString_placed hsize
  have hstops : stopOf (Scanner.ofString a).drain.ahead ≤ a.utf8ByteSize :=
    stopOf_le fun t ht => Nat.le_trans (hplaced.inside t ht).2.2 hplaced.stop_le
  refine ⟨s₁, ht, hs₁, ?_, ht.log, .inr ⟨rfl, ?_⟩⟩
  · unfold TokenStream.final
    rw [ht.stop]
    exact List.singleton_inj.1 hfinal
  · rw [ht.lastStop_of_start, Nat.zero_add]
    exact hstops

/-- **A text is read behind a semicolon as it is by itself.** If the first text has no character
zero, ends on a semicolon and has no fault, then both together are read as the statements of the
first one and then those of the second, further on by the size of the first; and the faults are those
of the second text, further on. -/
theorem read_append (hzero : '\x00' ∉ a.toList)
    (hlast : ((tokenize a).filter (fun t => t.kind ≠ .eof)).getLast?.map (·.kind) =
      some .semicolon)
    (hquiet : (read a other).diagnostics = []) (hsize : (a ++ b).utf8ByteSize ≤ Span.limit)
    (recovery : Recovery) :
    (read (a ++ b) recovery).program.body = (read a recovery).program.body ++
        Stmt.mapSpanAll (.displace (· + a.utf8ByteSize)) (read b recovery).program.body ∧
      (read (a ++ b) recovery).diagnostics =
        (read b recovery).diagnostics.map (.displace (· + a.utf8ByteSize)) := by
  have hfilter : (tokenize a).filter (fun t => t.kind ≠ .eof) = (Scanner.ofString a).drain.ahead :=
    filter_tokens a 1
  have hends : ∀ t ∈ (Scanner.ofString a).drain.ahead.getLast?, t.kind = .semicolon := by
    intro t ht
    rw [hfilter, ht] at hlast
    exact Option.some.inj hlast
  have hfirst : a.utf8ByteSize ≤ Span.limit := by
    rw [String.utf8ByteSize_append] at hsize
    omega
  obtain ⟨s₁, ht, hs₁⟩ := start_displaced_behind hfirst (tokenize_append hzero hends hsize)
  have hmono : Monotone (· + a.utf8ByteSize) := fun _ _ h => Nat.add_le_add_right h _
  -- the run of the second text goes on where that of the first one has come to its end
  obtain ⟨r', hrun, hdiagnostics⟩ := read_displaced hmono hs₁ recovery
  have hall := (derives_of_read hquiet).1.topRun_append hends ht hrun
  rw [read_eq_of_run (a ++ b) recovery hall, read_eq_of_quiet recovery hquiet]
  exact ⟨rfl, hdiagnostics⟩

/-- A name is bound, and the text behind it is broken. -/
theorem read_append_broken :
    '\x00' ∉ "let a = 1;".toList ∧
      ((tokenize "let a = 1;").filter (fun t => t.kind ≠ .eof)).getLast?.map (·.kind) =
        some .semicolon ∧
      (read "let a = 1;" .lenient).diagnostics = [] ∧
      ("let a = 1;" ++ " f(a \x7d 2").utf8ByteSize ≤ Span.limit ∧
      (read " f(a \x7d 2" .synchronize).diagnostics ≠ [] ∧
      (read ("let a = 1;" ++ " f(a \x7d 2") .synchronize).diagnostics =
        (read " f(a \x7d 2" .synchronize).diagnostics.map (.displace (· + 10)) := by
  have hzero : '\x00' ∉ "let a = 1;".toList := by decide +kernel
  have hlast : ((tokenize "let a = 1;").filter (fun t => t.kind ≠ .eof)).getLast?.map (·.kind) =
    some .semicolon := by decide +kernel
  have hquiet : (read "let a = 1;" .lenient).diagnostics = [] := by decide +kernel
  have hsize : ("let a = 1;" ++ " f(a \x7d 2").utf8ByteSize ≤ Span.limit := by decide +kernel
  exact ⟨hzero, hlast, hquiet, hsize, by decide +kernel,
    (read_append hzero hlast hquiet hsize .synchronize).2⟩

end Monkey

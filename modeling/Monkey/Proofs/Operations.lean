import Monkey.Operation
import Monkey.Proofs.Accounts
import Monkey.Proofs.Window

/-!
# What operations keep

Whatever is done with a session, and by whatever rules, it only goes on: tokens are taken and faults
are noted behind those before (`State.Precedes`). So at any time it stands at some index of the
text, with the token there before it and the one behind in view (`Session.StandsAt`). Main
statement: `Session.perform?_standsAt`.
-/

namespace Monkey

open Descent

namespace Descent

variable {t : Table} {s s₁ s' : State}

/-- From one state a reader may come to the other: tokens are taken, and what is noted stands behind
what was noted before. -/
structure State.Precedes (s s' : State) : Prop where
  takes : ∃ ts, Takes ts s (s'.withLog s.log)
  diagnostics : s.diagnostics <+: s'.diagnostics

namespace State.Precedes

theorem refl (s : State) : s.Precedes s := ⟨⟨[], .nil⟩, List.prefix_rfl⟩

theorem trans (h : s.Precedes s₁) (h' : s₁.Precedes s') : s.Precedes s' := by
  obtain ⟨ts, ht⟩ := h.takes
  obtain ⟨us, hu⟩ := h'.takes
  exact ⟨⟨ts ++ us, ht.append (hu.withLog s.log)⟩, h.diagnostics.trans h'.diagnostics⟩

theorem note (s : State) (c : Cause) (position : Nat) : s.Precedes (s.note c position) := by
  refine ⟨⟨[], .nil⟩, ?_⟩
  rw [State.diagnostics, State.diagnostics, State.note, List.reverse_cons]
  exact List.prefix_append _ _

theorem of_moves {ms : List Move} (h : Moves ms s s') : s.Precedes s' := by
  obtain ⟨ts, -, -, ht, -⟩ := h.takes
  exact ⟨⟨ts, ht⟩, h.diagnostics ▸ List.prefix_append _ _⟩

theorem advance (s : State) : s.Precedes s.advance := of_moves (.take s)

theorem expected (s : State) (k : Kind) : s.Precedes (s.expected k) := by
  by_cases h : s.kind = k
  · rw [expected_of_kind h]
    exact advance s
  · exact of_moves (.expected_of_ne h)

theorem passed (s : State) (k : Kind) : s.Precedes (s.passed k) := by
  by_cases h : s.kind = k
  · rw [passed_of_kind h]
    exact advance s
  · rw [passed_of_kind_ne h]
    exact refl s

end State.Precedes

theorem Run.precedes {p : Phrase} (h : Run t p s s') : s.Precedes s' := by
  obtain ⟨-, -, ms, hm, -⟩ := h.passage (P := False) False.elim False.elim
  exact .of_moves hm

theorem TopRun.precedes {recovery : Recovery} {ss : List Stmt} (h : TopRun t recovery ss s s') :
    s.Precedes s' := by
  obtain ⟨ms, hm, -, -⟩ := h.moves (P := False) False.elim
  exact .of_moves hm

end Descent

namespace Session

variable {α : Type} {source : String} {recovery : Recovery} {s s' : Session}

theorem after?_precedes {reader : Nested → Parse α} (h : s.after? reader = some s')
    (hr : ∀ {n a state}, n.Obeys s.table → reader n s.state = some (a, state) →
      s.state.Precedes state) : s.state.Precedes s'.state := by
  obtain ⟨⟨a, s₁⟩, hread, rfl⟩ := Option.map_eq_some_iff.1 h
  obtain ⟨⟨b, state⟩, hanswer, hp⟩ := Option.map_eq_some_iff.1 hread
  obtain ⟨rfl, rfl⟩ := Prod.mk.inj hp
  exact hr (nested_obeys s.table _) hanswer

/-- **An operation only goes on.** -/
theorem step?_precedes {op : Operation} (h : s.step? op = some s') :
    s.state.Precedes s'.state := by
  cases op with
  | take =>
    refine after?_precedes h fun _ hr => ?_
    obtain ⟨rfl, rfl⟩ := hr
    exact .of_moves (.take _)
  | expect kind =>
    refine after?_precedes h fun _ hr => ?_
    rw [expect_apply] at hr
    obtain ⟨rfl, rfl⟩ := hr
    exact .expected ..
  | note cause =>
    refine after?_precedes h fun _ hr => ?_
    obtain ⟨rfl, rfl⟩ := hr
    exact .note ..
  | noteAt cause position =>
    refine after?_precedes h fun _ hr => ?_
    obtain ⟨rfl, rfl⟩ := hr
    exact .note ..
  | setStatement kind rule =>
    obtain rfl := Option.some.inj h
    exact .refl _
  | setPrefix kind rule =>
    obtain rfl := Option.some.inj h
    exact .refl _
  | setInfix kind power rule =>
    obtain rfl := Option.some.inj h
    exact .refl _
  | program => exact after?_precedes h fun hn hr => (program_run hn hr).1.precedes
  | statement => exact after?_precedes h fun hn hr => (statement_run hn hr).precedes
  | statementBy rule => exact after?_precedes h fun hn hr => (statementBy_run hn hr).precedes
  | block => exact after?_precedes h fun hn hr => (block_run hn hr).precedes
  | expression power => exact after?_precedes h fun hn hr => (expression_run hn hr).precedes
  | opening rule => exact after?_precedes h fun hn hr => (opening_run hn hr).precedes
  | following rule power left =>
    exact after?_precedes h fun hn hr => (following_run hn hr).precedes

theorem perform?_precedes {ops : List Operation} (h : s.perform? ops = some s') :
    s.state.Precedes s'.state := by
  induction ops generalizing s with
  | nil =>
    obtain rfl := Option.some.inj h
    exact .refl _
  | cons op ops ih =>
    obtain ⟨s₁, h₁, h'⟩ := Option.bind_eq_some_iff.1 h
    exact (step?_precedes h₁).trans (ih h')

/-- The index of the current token in the text that a session reads. -/
def index (source : String) (s : Session) : Nat := (tokenize source).length - 1 - s.state.left

/-- A session stands at an index of a text: the token there is current and the one behind it in
view, what was taken ends with the token in front, and the end of the text is not passed. A window
that is as far into the text shows the same. -/
structure StandsAt (s : Session) (source : String) (i : Nat) : Prop where
  current : s.state.current = tokenAt source i
  peek : s.peek = tokenAt source (i + 1)
  spanFrom : (s.state.spanFrom 0).stop = if i = 0 then 0 else (tokenAt source (i - 1)).span.stop
  notPast : ∀ j < i, (tokenAt source j).kind ≠ .eof
  window : ((Window.ofScanner (.ofString source)).advanceBy i).Shows s.state

/-- After tokens that were taken from the start, the index is their number. -/
theorem index_of_takes {ts : List Token} {log : List Diagnostic}
    (h : Takes ts (.start (Scanner.ofString source).drain) (s.state.withLog log)) :
    s.index source = ts.length := by
  have hleft : (Scanner.ofString source).drain.ahead.length = ts.length + s.state.left := h.left
  rw [index, tokenize, TokenStream.toList, List.length_append, hleft, List.length_singleton]
  omega

/-- **A session stands at its index** if a reader may come to it from the start of the text. -/
theorem standsAt_of_precedes
    (h : (State.start (Scanner.ofString source).drain).Precedes s.state) :
    s.StandsAt source (s.index source) := by
  obtain ⟨ts, ht⟩ := h.takes
  rw [index_of_takes ht]
  constructor
  · exact (TokenStream.get_zero _).symm.trans (tokenAt_add ht 0).symm
  · rw [tokenAt_add ht, peek, ← TokenStream.get_zero, TokenStream.get_tail]
    rfl
  · rw [← lastStop_eq_tokenAt ht]
    exact Nat.max_zero _
  · intro j hj
    rw [tokenAt_of_lt ht hj]
    exact kind_ne_eof_of_takes ht (List.getElem_mem hj)
  · exact ((Window.ofScanner_shows _).takes ht fun _ => kind_ne_eof_of_takes ht).of_withLog

theorem start?_ofString (source : String) (recovery : Recovery) :
    start? (.ofString source) recovery =
      some ⟨.standard, recovery, .start (Scanner.ofString source).drain⟩ := by
  rw [start?, Cursor.scanner?, Cursor.ofString, Text.dropWidth?]
  rfl

/-- **At any time a session stands at an index of its text**, whatever was done with it before: the
index is that of the current token. Whatever is done then, the index does not go down, and what was
noted stays in front of what is noted. -/
theorem perform?_standsAt {ops ops' : List Operation} {s₀ : Session}
    (h₀ : start? (.ofString source) recovery = some s₀) (h : s₀.perform? ops = some s)
    (h' : s.perform? ops' = some s') :
    s.StandsAt source (s.index source) ∧ s'.StandsAt source (s'.index source) ∧
      s.index source ≤ s'.index source ∧ s.state.diagnostics <+: s'.state.diagnostics := by
  rw [start?_ofString] at h₀
  obtain rfl := Option.some.inj h₀
  have hs := perform?_precedes h
  have hs' := perform?_precedes h'
  obtain ⟨ts, ht⟩ := hs'.takes
  have hleft : s.state.left = ts.length + s'.state.left := ht.left
  refine ⟨standsAt_of_precedes hs, standsAt_of_precedes (hs.trans hs'), ?_, hs'.diagnostics⟩
  rw [index, index]
  omega

/-- A call that breaks off inside is read on after its parenthesis was taken for a comma, by a rule
for what has no place in the language: from the number on, which is the third token, to the end. -/
theorem perform?_standsAt_brokenCall : ∃ s₀ s s',
    start? (.ofString "f(1 @") .synchronize = some s₀ ∧
      s₀.perform? [.take, .expect .comma, .setPrefix .illegal .literal] = some s ∧
      s.perform? [.expression .lowest, .program] = some s' ∧
      s.index "f(1 @" = 2 ∧ s.StandsAt "f(1 @" 2 ∧ s.state.current = ⟨.integer, "1", ⟨2, 3⟩⟩ ∧
      s'.index "f(1 @" = 4 ∧ s'.StandsAt "f(1 @" 4 ∧ s'.state.current = .ending 5 ∧
      s.state.diagnostics.length = 1 ∧ s.state.diagnostics <+: s'.state.diagnostics := by
  have hreads : ((start? (.ofString "f(1 @") .synchronize).bind fun s₀ =>
      (s₀.perform? [.take, .expect .comma, .setPrefix .illegal .literal]).bind fun s =>
        (s.perform? [.expression .lowest, .program]).map fun s' =>
          (s.index "f(1 @", s.state.current, s.state.diagnostics.length, s'.index "f(1 @",
            s'.state.current)) =
      some (2, ⟨.integer, "1", ⟨2, 3⟩⟩, 1, 4, .ending 5) := by
    decide +kernel
  obtain ⟨s₀, h₀, hreads⟩ := Option.bind_eq_some_iff.1 hreads
  obtain ⟨s, h, hreads⟩ := Option.bind_eq_some_iff.1 hreads
  obtain ⟨s', h', hshown⟩ := Option.map_eq_some_iff.1 hreads
  simp only [Prod.mk.injEq] at hshown
  obtain ⟨hindex, hcurrent, hnoted, hindex', hcurrent'⟩ := hshown
  obtain ⟨hstands, hstands', -, hprefix⟩ := perform?_standsAt h₀ h h'
  rw [hindex] at hstands
  rw [hindex'] at hstands'
  exact ⟨s₀, s, s', h₀, h, h', hindex, hstands, hcurrent, hindex', hstands', hcurrent', hnoted,
    hprefix⟩

end Session

end Monkey

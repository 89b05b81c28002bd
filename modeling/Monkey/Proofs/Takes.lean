import Monkey.Proofs.Derivation
import Monkey.Proofs.Run

/-!
# Taking tokens

`Takes ts s s'` says that between two states the tokens `ts` were taken and no fault was noted. The
states of a run without faults are tied to the tokens of a derivation by it: it composes along
concatenation (`Takes.append`, `Takes.split`), and the span from an offset to what was taken last is
that of the grammar (`Takes.spanFrom`).
-/

namespace Monkey.Descent

namespace State

variable {s : State} {t : Token} {ts : List Token} {k : Kind}

theorem advance_of_cons (h : s.stream.ahead = t :: ts) :
    s.advance = ⟨some t, ⟨ts, s.stream.stop⟩, s.log⟩ := by
  unfold advance
  rw [h]
  simp [TokenStream.tail, h]

theorem current_of_cons (h : s.stream.ahead = t :: ts) : s.current = t := by
  simp [current, TokenStream.head, h]

theorem kind_of_cons (h : s.stream.ahead = t :: ts) : s.kind = t.kind := by
  rw [kind, current_of_cons h]

/-- Before the end of the text there is a token to take. -/
theorem ahead_of_kind (h : s.kind ≠ .eof) :
    s.stream.ahead = s.current :: s.advance.stream.ahead := by
  cases ha : s.stream.ahead with
  | nil => exact absurd (kind_of_left (by simp [left, ha])) h
  | cons t ts => rw [current_of_cons ha, advance_of_cons ha]

/-- At the end of the text there is none, if no other token says that it is the end. -/
theorem ahead_eq_nil (hk : s.kind = .eof) (h : ∀ t ∈ s.stream.ahead, t.kind ≠ .eof) :
    s.stream.ahead = [] := by
  cases ha : s.stream.ahead with
  | nil => rfl
  | cons t ts =>
    rw [kind_of_cons ha] at hk
    exact absurd hk (h t (ha ▸ List.mem_cons_self))

@[simp] theorem log_advance (s : State) : s.advance.log = s.log := by
  unfold advance
  split <;> rfl

@[simp] theorem stop_advance (s : State) : s.advance.stream.stop = s.stream.stop := by
  unfold advance
  split <;> rfl

theorem stream_advance (s : State) : s.advance.stream = s.stream.tail := by
  unfold advance
  split
  · next h => rw [TokenStream.tail, h, List.tail_nil, ← h]
  · rfl

theorem expected_of_kind (h : s.kind = k) : s.expected k = s.advance := if_pos h

theorem passed_of_kind (h : s.kind = k) : s.passed k = s.advance := if_pos h

theorem passed_of_kind_ne (h : s.kind ≠ k) : s.passed k = s := if_neg h

end State

theorem stopOf_le {ts : List Token} {n : Nat} (h : ∀ t ∈ ts, t.span.stop ≤ n) : stopOf ts ≤ n := by
  unfold stopOf
  cases hlast : ts.getLast? with
  | none => exact Nat.zero_le n
  | some t => exact h t (List.mem_of_getLast? hlast)

/-- Between two states the tokens were taken, and no fault was noted. -/
inductive Takes : List Token → State → State → Prop where
  | nil {s : State} : Takes [] s s
  | cons {s s' : State} {t : Token} {ts us : List Token} (h : s.stream.ahead = t :: us)
      (hs : Takes ts s.advance s') : Takes (t :: ts) s s'

namespace Takes

variable {s s₁ s' : State} {t : Token} {ts us : List Token} {k : Kind}

theorem append (h : Takes ts s s₁) (h' : Takes us s₁ s') : Takes (ts ++ us) s s' := by
  induction h with
  | nil => exact h'
  | cons h _ ih => exact .cons h (ih h')

theorem split (h : Takes (ts ++ us) s s') : ∃ s₁, Takes ts s s₁ ∧ Takes us s₁ s' := by
  induction ts generalizing s with
  | nil => exact ⟨s, .nil, h⟩
  | cons t ts ih =>
    cases h with
    | cons ha hs =>
      obtain ⟨s₁, h₁, h₂⟩ := ih hs
      exact ⟨s₁, .cons ha h₁, h₂⟩

theorem uncons (h : Takes (t :: ts) s s') : s.current = t ∧ Takes ts s.advance s' := by
  cases h with
  | cons ha hs => exact ⟨State.current_of_cons ha, hs⟩

theorem eq_advance (h : Takes [t] s s') : s.current = t ∧ s' = s.advance := by
  obtain ⟨ht, hs⟩ := h.uncons
  cases hs
  exact ⟨ht, rfl⟩

/-- The first token is of the kind that should stand there. -/
theorem expect (h : Takes (t :: ts) s s') (hk : t.kind = k) :
    s.current = t ∧ s.kind = k ∧ Takes ts (s.expected k) s' := by
  obtain ⟨ht, hs⟩ := h.uncons
  have hkind : s.kind = k := by rw [State.kind, ht, hk]
  rw [State.expected_of_kind hkind]
  exact ⟨ht, hkind, hs⟩

/-- The only token is of the kind that should stand there. -/
theorem expectLast (h : Takes [t] s s') (hk : t.kind = k) : s.kind = k ∧ s' = s.expected k := by
  obtain ⟨-, hkind, hs⟩ := h.expect hk
  cases hs
  exact ⟨hkind, rfl⟩

theorem one (h : s.kind ≠ .eof) : Takes [s.current] s s.advance :=
  .cons (State.ahead_of_kind h) .nil

theorem ahead (h : Takes ts s s') : s.stream.ahead = ts ++ s'.stream.ahead := by
  induction h with
  | nil => rfl
  | cons ha _ ih =>
    rw [State.advance_of_cons ha] at ih
    rw [ha, List.cons_append, ← ih]

theorem left (h : Takes ts s s') : s.left = ts.length + s'.left := by
  rw [State.left, h.ahead, List.length_append, State.left]

/-- The stream goes on behind the tokens. -/
theorem get (h : Takes ts s s') (i : Nat) :
    s.stream.get (ts.length + i) = s'.stream.get i := by
  induction h with
  | nil => rw [List.length_nil, Nat.zero_add]
  | cons _ _ ih =>
    rw [State.stream_advance, TokenStream.get_tail] at ih
    rw [List.length_cons, Nat.add_right_comm, ih]

/-- The stream begins with the tokens. -/
theorem get_of_lt (h : Takes ts s s') {i : Nat} (hi : i < ts.length) : s.stream.get i = ts[i] := by
  rw [TokenStream.get, h.ahead, List.getD_eq_getElem?_getD, List.getElem?_append_left hi,
    List.getElem?_eq_getElem hi, Option.getD_some]

theorem log (h : Takes ts s s') : s'.log = s.log := by
  induction h with
  | nil => rfl
  | cons _ _ ih => rw [ih, State.log_advance]

theorem stop (h : Takes ts s s') : s'.stream.stop = s.stream.stop := by
  induction h with
  | nil => rfl
  | cons _ _ ih => rw [ih, State.stop_advance]

/-- Behind the last token stands the end of the text. -/
theorem current_of_nil (h : Takes ts s s') (hnil : s'.stream.ahead = []) :
    s'.current = s.stream.final := by
  rw [State.current, TokenStream.head, hnil, TokenStream.final, h.stop]
  rfl

/-- The tokens of a state can be taken. -/
theorem exists_of_ahead (h : s.stream.ahead = ts ++ us) :
    ∃ s', Takes ts s s' ∧ s'.stream.ahead = us := by
  induction ts generalizing s with
  | nil => exact ⟨s, .nil, h⟩
  | cons t ts ih =>
    rw [List.cons_append] at h
    obtain ⟨s', hs, hu⟩ := ih (s := s.advance) (by rw [State.advance_of_cons h])
    exact ⟨s', .cons h hs, hu⟩

theorem last (h : Takes ts s s') (hne : ts ≠ []) : s'.last = ts.getLast? := by
  induction h with
  | nil => exact absurd rfl hne
  | @cons s s' t ts us ha hs ih =>
    cases ts with
    | nil =>
      cases hs
      rw [State.advance_of_cons ha]
      rfl
    | cons u ts => rw [ih (by simp), List.getLast?_cons_cons]

/-- What was taken last ends where the last of the tokens stops. -/
theorem lastStop (h : Takes ts s s') (hne : ts ≠ []) : s'.lastStop = stopOf ts := by
  rw [State.lastStop, h.last hne, stopOf]

theorem lastStop_of_start {u : TokenStream} (h : Takes ts (.start u) s') :
    s'.lastStop = stopOf ts := by
  cases ts with
  | nil =>
    cases h
    rfl
  | cons t ts => exact h.lastStop (List.cons_ne_nil t ts)

/-- **The span up to what was taken last** is that over any tokens that end with those taken. -/
theorem spanFrom (h : Takes ts s s') (hne : ts ≠ []) (start : Nat) (ls : List Token) :
    s'.spanFrom start = .over start (ls ++ ts) := by
  have hlast : stopOf (ls ++ ts) = stopOf ts := by
    rw [stopOf, stopOf, List.getLast?_append, List.getLast?_eq_some_getLast hne, Option.some_or]
  rw [State.spanFrom, h.lastStop hne, Span.over, hlast]

theorem spanFrom_over (h : Takes ts s s') (hne : ts ≠ []) (start : Nat) :
    s'.spanFrom start = .over start ts :=
  h.spanFrom hne start []

end Takes

end Monkey.Descent

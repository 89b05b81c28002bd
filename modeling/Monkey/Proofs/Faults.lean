import Monkey.Proofs.Answer
import Monkey.Proofs.Takes

/-!
# Faults

Faults are only ever added to the log (`Run.log_suffix`). So if a run ends with the log that it began
with, none of its parts notes a fault (`log_eq_of_suffix`). What is found in a log of the causes of
one sort (`State.found`) grows only where a fault of that sort is noted.
-/

namespace Monkey.Descent

variable {t : Table} {s s₁ s' : State} {e : Expr} {k : Kind}

@[simp] theorem State.log_note (s : State) (cause : Cause) (position : Nat) :
    (s.note cause position).log = ⟨cause, position⟩ :: s.log := rfl

@[simp] theorem State.log_passed (s : State) (k : Kind) : (s.passed k).log = s.log := by
  unfold passed
  split
  · rw [log_advance]
  · rfl

theorem State.log_expected (s : State) (k : Kind) :
    (s.expected k).log = s.log ∨
      (s.expected k).log = ⟨.unexpected s.current k, s.current.span.start⟩ :: s.log := by
  by_cases h : s.kind = k
  · left
    rw [expected_of_kind h, log_advance]
  · right
    unfold expected
    rw [if_neg h, log_advance]
    rfl

theorem State.suffix_expected (s : State) (k : Kind) : s.log <:+ (s.expected k).log := by
  rcases s.log_expected k with h | h
  · exact h ▸ List.suffix_refl _
  · exact h ▸ List.suffix_cons _ _

/-- A token that is taken without a fault is of the kind that should stand there. -/
theorem State.kind_of_log_expected (h : (s.expected k).log = s.log) : s.kind = k := by
  by_cases hk : s.kind = k
  · exact hk
  · unfold expected at h
    rw [if_neg hk, log_advance, noteHere, log_note] at h
    exact absurd h (List.cons_ne_self _ _)

section Found

variable {β : Type} {pick : Cause → Option β}

/-- What is picked from the causes of the faults that were noted so far, in their order. -/
def State.found (pick : Cause → Option β) (s : State) : List β :=
  s.diagnostics.filterMap (pick ·.cause)

theorem State.found_of_log (h : s'.log = s.log) : s'.found pick = s.found pick := by
  unfold found diagnostics
  rw [h]

@[simp] theorem State.found_advance (s : State) : s.advance.found pick = s.found pick :=
  found_of_log s.log_advance

@[simp] theorem State.found_passed (s : State) (k : Kind) :
    (s.passed k).found pick = s.found pick := found_of_log (s.log_passed k)

theorem State.found_note (s : State) (c : Cause) (n : Nat) :
    (s.note c n).found pick = s.found pick ++ (pick c).toList := by
  unfold found diagnostics
  rw [log_note, List.reverse_cons, List.filterMap_append]
  cases h : pick c <;> simp [h]

/-- Where nothing is picked from a token of the wrong kind, a token that should be of some kind
makes no difference. -/
theorem State.found_expected (h : ∀ u k, pick (.unexpected u k) = none) (s : State) (k : Kind) :
    (s.expected k).found pick = s.found pick := by
  by_cases hk : s.kind = k
  · rw [expected_of_kind hk, found_advance]
  · unfold expected
    rw [if_neg hk, found_advance, noteHere, found_note, h, Option.toList_none, List.append_nil]

end Found

/-- The ways in which a literal is read. -/
theorem literal_cases (h : literal s = some (e, s')) :
    (∃ n, s.kind = .integer ∧ Lexeme.number? s.current.text = some n ∧
        e = .number s.current n s.current.span ∧ s' = s.advance) ∨
      (s.kind = .integer ∧ Lexeme.number? s.current.text = none ∧
        e = .number s.current 0 s.current.span ∧
        s' = s.advance.note (.overflow s.current) s.current.span.start) ∨
      (s.kind = .trueWord ∧ e = .boolean s.current true s.current.span ∧ s' = s.advance) ∨
      (s.kind = .falseWord ∧ e = .boolean s.current false s.current.span ∧ s' = s.advance) ∨
      (s.kind ≠ .integer ∧ s.kind ≠ .trueWord ∧ s.kind ≠ .falseWord ∧
        e = .symbol (.ofToken s.current) ∧ s' = s.advance) := by
  rw [literal, take_bind] at h
  unfold State.kind
  cases hk : s.current.kind with
  | integer =>
    rw [hk] at h
    cases hn : Lexeme.number? s.current.text with
    | none =>
      simp only [hn] at h
      obtain ⟨rfl, rfl⟩ := h
      simp
    | some n =>
      simp only [hn] at h
      obtain ⟨rfl, rfl⟩ := h
      simp
  | trueWord =>
    rw [hk] at h
    obtain ⟨rfl, rfl⟩ := h
    simp
  | falseWord =>
    rw [hk] at h
    obtain ⟨rfl, rfl⟩ := h
    simp
  | _ =>
    rw [hk] at h
    obtain ⟨rfl, rfl⟩ := h
    simp

/-- **Faults are only added.** -/
theorem Run.log_suffix {p : Phrase} (h : Run t p s s') : s.log <:+ s'.log := by
  induction h with
  | @hole s =>
    rw [State.log_note, State.log_advance]
    exact List.suffix_cons _ _
  | expression _ _ _ iho ihe => exact iho.trans ihe
  | @literal s s' e h =>
    rcases literal_cases h with ⟨n, -, -, -, rfl⟩ | ⟨-, -, -, rfl⟩ | ⟨-, -, rfl⟩ | ⟨-, -, rfl⟩ |
      ⟨-, -, -, -, rfl⟩
    -- only a number that is too large is at fault
    case inr.inl =>
      rw [State.log_note, State.log_advance]
      exact List.suffix_cons _ _
    all_goals exact (State.log_advance _).symm ▸ List.suffix_refl _
  | unary _ ih => exact State.log_advance _ ▸ ih
  | opened _ ih => exact ih
  | conditional _ _ _ ihe ihb iha => exact State.log_advance _ ▸ (ihe.trans ihb).trans iha
  | @function s s₁ s' ps b _ _ ihp ihb =>
    rw [← State.log_advance s]
    exact (State.suffix_expected _ _).trans (ihp.trans ((State.suffix_expected _ _).trans ihb))
  | group _ ih => exact (State.suffix_expected _ _).trans (ih.trans (State.suffix_expected _ _))
  | stop => exact List.suffix_refl _
  | extend _ _ _ ihf ihe => exact ihf.trans ihe
  | binary _ ih => exact State.log_advance _ ▸ ih
  | call _ ih => exact State.log_advance _ ▸ ih.trans (State.suffix_expected _ _)
  | argumentsEnd => exact List.suffix_refl _
  | comma _ _ ih => exact State.log_advance _ ▸ ih
  | noArgument _ _ _ _ ihe iha => exact ihe.trans iha
  | argument _ _ _ _ _ ihe iha => exact ihe.trans iha
  | parametersEnd => exact List.suffix_refl _
  | noParameter _ _ _ ih =>
    rw [State.log_passed] at ih
    exact (State.suffix_expected _ _).trans ih
  | parameter _ _ ih =>
    rw [State.log_passed] at ih
    exact (State.suffix_expected _ _).trans ih
  | block _ ih => exact (State.suffix_expected _ _).trans (ih.trans (State.suffix_expected _ _))
  | noAlternative => exact List.suffix_refl _
  | alternative _ _ ih => exact State.log_advance _ ▸ ih
  | noValue => exact List.suffix_refl _
  | value _ _ ih => exact ih
  | @binding s s₁ e _ ih =>
    rw [← State.log_advance s]
    exact (State.suffix_expected _ _).trans
      ((State.suffix_expected _ _).trans (ih.trans (State.suffix_expected _ _)))
  | returning _ ih => exact State.log_advance _ ▸ ih.trans (State.suffix_expected _ _)
  | ruledBlock _ ih => exact ih
  | bare _ ih =>
    rw [State.log_passed]
    exact ih
  | statement _ ih => exact ih
  | statementsEnd => exact List.suffix_refl _
  | statements _ _ _ ihs ihss => exact ihs.trans ihss

theorem takes_advance (s : State) : ∃ ts, Takes ts s s.advance := by
  cases h : s.stream.ahead with
  | nil =>
    have hs : s.advance = s := by
      unfold State.advance
      rw [h]
    rw [hs]
    exact ⟨[], .nil⟩
  | cons t ts => exact ⟨[t], .cons h .nil⟩

theorem skip_apply (s : State) : skip s = some (none, s.advance) := rfl

theorem collect_skip_takes {stops : Kind → Bool} {us : List Unit}
    (h : collect stops skip s = some (us, s')) : ∃ ts, Takes ts s s' := by
  refine collect_induction (P := fun _ s s' => ∃ ts, Takes ts s s') (fun _ => ⟨[], .nil⟩) ?_ h
  intro s s₁ s' x us _ hx hu
  rw [skip_apply] at hx
  obtain ⟨rfl, rfl⟩ := hx
  obtain ⟨ts, ht⟩ := takes_advance s
  obtain ⟨us, hu⟩ := hu
  exact ⟨ts ++ us, ht.append hu⟩

/-- Whatever is skipped behind a statement, tokens are taken and nothing else happens. -/
theorem recover_takes {recovery : Recovery} {before : Nat}
    (h : recover recovery before s = some ((), s')) : ∃ ts, Takes ts s s' := by
  rw [recover, get_bind] at h
  split at h
  · rw [resynchronize, get_bind] at h
    split at h
    · obtain ⟨-, rfl⟩ := h
      exact ⟨[], .nil⟩
    · rw [skipStatement, bind_eq_some_iff] at h
      obtain ⟨us, s₁, h₁, h⟩ := h
      rw [take_bind] at h
      obtain ⟨-, rfl⟩ := h
      obtain ⟨ts, ht⟩ := collect_skip_takes h₁
      obtain ⟨vs, hv⟩ := takes_advance s₁
      exact ⟨ts ++ vs, ht.append hv⟩
  · obtain ⟨-, rfl⟩ := h
    exact ⟨[], .nil⟩

/-- After a statement without a fault nothing is skipped. -/
theorem recover_of_log {recovery : Recovery} (h : s'.log = s.log) :
    recover recovery s.log.length s' = some ((), s') := by
  rw [recover, get_bind, h]
  simp

theorem TopRun.log_suffix {recovery : Recovery} {ss : List Stmt}
    (h : TopRun t recovery ss s s') : s.log <:+ s'.log := by
  induction h with
  | done => exact List.suffix_refl _
  | next _ hs hr _ ih =>
    -- what is skipped behind the statement adds no fault
    obtain ⟨ts, ht⟩ := recover_takes hr
    rw [ht.log] at ih
    exact hs.log_suffix.trans ih

/-- A log that grows twice and comes out unchanged has not grown at all. -/
theorem log_eq_of_suffix {a b c : List Diagnostic} (h₁ : a <:+ b) (h₂ : b <:+ c) (h : c = a) :
    b = a ∧ c = b := by
  subst h
  have hb : b = c := h₂.eq_of_length (Nat.le_antisymm h₂.length_le h₁.length_le)
  exact ⟨hb, hb.symm⟩

end Monkey.Descent

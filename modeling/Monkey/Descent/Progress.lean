import Monkey.Descent.Program

/-!
# Progress

Every reader comes to an answer, whatever the tokens, as long as the table spares the end of the
text: a construct takes a token before it meets another one inside, and every item of a list takes a
token. `Reaches` says of a reader that it answers and leaves at most so many tokens. Main statement:
a program is read to the end (`program_reaches`).
-/

namespace Monkey.Descent

variable {α β : Type} {t : Table} {n : Nested} {s : State} {d m : Nat}

/-- The reader answers and leaves at most `m` tokens. -/
def Reaches (p : Parse α) (s : State) (m : Nat) : Prop :=
  ∃ a s', p s = some (a, s') ∧ s'.left ≤ m

namespace Reaches

theorem mono {p : Parse α} {k : Nat} (h : Reaches p s m) (hm : m ≤ k) : Reaches p s k := by
  obtain ⟨a, s', hp, hs⟩ := h
  exact ⟨a, s', hp, by omega⟩

theorem pure {a : α} (h : s.left ≤ m) : Reaches (pure a : Parse α) s m := ⟨a, s, rfl, h⟩

theorem bind {p : Parse α} {f : α → Parse β} {k : Nat} (h : Reaches p s m)
    (hf : ∀ a s', s'.left ≤ m → Reaches (f a) s' k) : Reaches (p >>= f) s k := by
  obtain ⟨a, s', hp, hs⟩ := h
  obtain ⟨b, s'', hq, hs'⟩ := hf a s' hs
  exact ⟨b, s'', bind_eq_some_iff.2 ⟨a, s', hp, hq⟩, hs'⟩

theorem map {p : Parse α} {f : α → β} (h : Reaches p s m) : Reaches (f <$> p) s m := by
  obtain ⟨a, s', hp, hs⟩ := h
  exact ⟨f a, s', by simp [Functor.map, StateT.map, hp], hs⟩

theorem isSome {p : Parse α} (h : Reaches p s m) : (p s).isSome = true := by
  obtain ⟨a, s', hp, _⟩ := h
  simp [hp]

theorem bind_current {f : Token → Parse α} (h : Reaches (f s.current) s m) :
    Reaches (current >>= f) s m := h

theorem bind_get {f : State → Parse α} (h : Reaches (f s) s m) : Reaches (get >>= f) s m := h

end Reaches

theorem take_reaches : Reaches take s (s.left - 1) := ⟨_, _, rfl, by simp⟩

theorem takeIf_reaches (k : Kind) : Reaches (takeIf k) s s.left := by
  by_cases h : s.kind = k
  · exact ⟨_, _, if_pos h, by simp⟩
  · exact ⟨_, _, if_neg h, Nat.le_refl _⟩

theorem expect_reaches (k : Kind) : Reaches (expect k) s (s.left - 1) := by
  by_cases h : s.kind = k
  · exact ⟨_, _, if_pos h, by simp⟩
  · exact ⟨_, _, if_neg h, by simp⟩

theorem note_reaches {cause : Cause} {position : Nat} :
    Reaches (note cause position) s s.left := ⟨_, _, rfl, by simp⟩

theorem spanFrom_reaches {start : Nat} : Reaches (spanFrom start) s s.left :=
  ⟨_, _, rfl, Nat.le_refl _⟩

/-- A list is read to its end if every item takes a token and the end of the text stops it. -/
theorem collect_reaches {stops : Kind → Bool} {item : Parse (Option α)} (hs : stops .eof = true)
    (hi : ∀ s', s'.left ≤ s.left → s'.left ≠ 0 → Reaches item s' (s'.left - 1)) :
    Reaches (collect stops item) s s.left := by
  induction hm : s.left using Nat.strongRecOn generalizing s with
  | ind m ih =>
    subst hm
    by_cases hk : stops s.kind = true
    · exact ⟨_, _, by rw [collect, if_pos hk], Nat.le_refl _⟩
    · -- the end of the text stops the list, so there is a token to take
      have h0 : s.left ≠ 0 := fun h => hk (State.kind_of_left h ▸ hs)
      obtain ⟨x, s', hx, hl⟩ := hi s (Nat.le_refl _) h0
      have hlt : s'.left < s.left := by omega
      obtain ⟨xs, s'', hxs, hl'⟩ :=
        ih s'.left hlt (fun r hr => hi r (by omega)) rfl
      exact ⟨x.toList ++ xs, s'', by rw [collect, if_neg hk]; simp [hx, hlt, hxs], by omega⟩

/-- The readers for what stands inside take a token each, as long as fewer than `d` are to come. -/
structure Nested.Handles (n : Nested) (d : Nat) : Prop where
  expression : ∀ s : State, s.left < d → ∀ power, Reaches (n.expression power) s (s.left - 1)
  statement : ∀ s : State, s.left < d → Reaches n.statement s (s.left - 1)

theorem literal_reaches : Reaches literal s (s.left - 1) := by
  refine take_reaches.bind fun token s' hs => ?_
  split
  · split
    · exact .pure hs
    · exact (note_reaches.mono hs).bind fun _ _ hs' => .pure hs'
  · exact .pure hs
  · exact .pure hs
  · exact .pure hs

theorem unary_reaches (hn : n.Handles d) (hs : s.left ≤ d) (h0 : s.left ≠ 0) :
    Reaches (unary n) s (s.left - 1) := by
  refine take_reaches.bind fun operator s₁ h₁ => ?_
  refine ((hn.expression s₁ (by omega) _).mono (k := s.left - 1) (by omega)).bind fun _ s₂ h₂ => ?_
  exact (spanFrom_reaches.mono h₂).bind fun _ _ h₃ => .pure h₃

theorem group_reaches (hn : n.Handles d) (hs : s.left ≤ d) (hd : d ≠ 0) :
    Reaches (group n) s (s.left - 1) := by
  refine (expect_reaches _).bind fun _ s₁ h₁ => ?_
  refine ((hn.expression s₁ (by omega) _).mono (k := s.left - 1) (by omega)).bind fun _ s₂ h₂ => ?_
  exact ((expect_reaches _).mono (k := s.left - 1) (by omega)).bind fun _ _ h₃ => .pure h₃

theorem block_reaches (hn : n.Handles d) (hs : s.left ≤ d) : Reaches (block n) s (s.left - 1) := by
  refine (expect_reaches _).bind fun _ s₁ h₁ => ?_
  refine ((collect_reaches rfl fun s' _ _ => (hn.statement s' (by omega)).map).mono h₁).bind
    fun _ s₂ h₂ => ?_
  refine ((expect_reaches _).mono (k := s.left - 1) (by omega)).bind fun _ s₃ h₃ => ?_
  exact (spanFrom_reaches.mono h₃).bind fun _ _ h₄ => .pure h₄

theorem alternative_reaches (hn : n.Handles d) (hs : s.left ≤ d) :
    Reaches (alternative n) s s.left := by
  refine (takeIf_reaches _).bind fun _ s₁ h₁ => ?_
  split
  · exact (block_reaches hn (by omega)).map.mono (by omega)
  · exact .pure h₁

theorem conditional_reaches (hn : n.Handles d) (hs : s.left ≤ d) (h0 : s.left ≠ 0) :
    Reaches (conditional n) s (s.left - 1) := by
  refine take_reaches.bind fun _ s₁ h₁ => ?_
  refine ((group_reaches hn (by omega) (by omega)).mono (k := s.left - 1) (by omega)).bind
    fun _ s₂ h₂ => ?_
  refine ((block_reaches hn (by omega)).mono (k := s.left - 1) (by omega)).bind fun _ s₃ h₃ => ?_
  refine ((alternative_reaches hn (by omega)).mono h₃).bind fun _ s₄ h₄ => ?_
  exact (spanFrom_reaches.mono h₄).bind fun _ _ h₅ => .pure h₅

theorem parameter_reaches : Reaches parameter s (s.left - 1) :=
  (expect_reaches _).bind fun _ _ h₁ => ((takeIf_reaches _).mono h₁).bind fun _ _ h₂ => .pure h₂

theorem function_reaches (hn : n.Handles d) (hs : s.left ≤ d) :
    Reaches (function n) s (s.left - 1) := by
  refine take_reaches.bind fun _ s₁ h₁ => ?_
  refine ((expect_reaches _).mono (k := s.left - 1) (by omega)).bind fun _ s₂ h₂ => ?_
  refine ((collect_reaches rfl fun _ _ _ => parameter_reaches).mono h₂).bind fun _ s₃ h₃ => ?_
  refine ((expect_reaches _).mono (k := s.left - 1) (by omega)).bind fun _ s₄ h₄ => ?_
  refine ((block_reaches hn (by omega)).mono (k := s.left - 1) (by omega)).bind fun _ s₅ h₅ => ?_
  exact (spanFrom_reaches.mono h₅).bind fun _ _ h₆ => .pure h₆

theorem argument_reaches (hn : n.Handles d) (hs : s.left < d) :
    Reaches (argument n) s (s.left - 1) := by
  by_cases hk : s.kind = .comma
  · exact ⟨none, s.advance, bind_eq_some_iff.2 ⟨true, s.advance, if_pos hk, rfl⟩, by simp⟩
  · obtain ⟨e, s', he, hl⟩ := hn.expression s hs .lowest
    exact ⟨if e.isAbsent then none else some e, s', bind_eq_some_iff.2 ⟨false, s, if_neg hk,
      bind_eq_some_iff.2 ⟨e, s', he, rfl⟩⟩, hl⟩

theorem call_reaches {callee : Expr} (hn : n.Handles d) (hs : s.left ≤ d) :
    Reaches (call n callee) s (s.left - 1) := by
  refine take_reaches.bind fun _ s₁ h₁ => ?_
  refine ((collect_reaches rfl fun s' _ _ => argument_reaches hn (by omega)).mono h₁).bind
    fun _ s₂ h₂ => ?_
  refine ((expect_reaches _).mono (k := s.left - 1) (by omega)).bind fun _ s₃ h₃ => ?_
  exact (spanFrom_reaches.mono h₃).bind fun _ _ h₄ => .pure h₄

theorem binary_reaches {power : Power} {left : Expr} (hn : n.Handles d) (hs : s.left ≤ d)
    (h0 : s.left ≠ 0) : Reaches (binary n power left) s (s.left - 1) := by
  refine take_reaches.bind fun _ s₁ h₁ => ?_
  refine ((hn.expression s₁ (by omega) _).mono (k := s.left - 1) (by omega)).bind fun _ s₂ h₂ => ?_
  exact (spanFrom_reaches.mono h₂).bind fun _ _ h₃ => .pure h₃

theorem opening_reaches (hn : n.Handles d) (hs : s.left ≤ d) (h0 : s.left ≠ 0) (rule : PrefixRule) :
    Reaches (opening n rule) s (s.left - 1) := by
  cases rule with
  | literal => exact literal_reaches
  | unary => exact unary_reaches hn hs h0
  | group => exact group_reaches hn hs (by omega)
  | conditional => exact conditional_reaches hn hs h0
  | function => exact function_reaches hn hs

theorem following_reaches (hn : n.Handles d) (hs : s.left ≤ d) (h0 : s.left ≠ 0) (left : Expr)
    (power : Power) (rule : InfixRule) :
    Reaches (following n left power rule) s (s.left - 1) := by
  cases rule with
  | binary => exact binary_reaches hn hs h0
  | call => exact call_reaches hn hs

/-- At the end of the text an expression is not extended. -/
theorem infixAbove_eof (ht : t.SparesEnd) (power : Power) : t.infixAbove power .eof = none := by
  simp [Table.infixAbove, ht.2]

theorem extend_reaches {power : Power} (ht : t.SparesEnd) (hn : n.Handles d) (hs : s.left ≤ d)
    (left : Expr) : Reaches (extend t n power left) s s.left := by
  induction hm : s.left using Nat.strongRecOn generalizing s left with
  | ind m ih =>
    subst hm
    cases hi : t.infixAbove power s.kind with
    | none => exact ⟨left, s, by rw [extend]; simp [hi], Nat.le_refl _⟩
    | some found =>
      obtain ⟨own, rule⟩ := found
      -- nothing extends an expression at the end of the text
      have h0 : s.left ≠ 0 := by
        intro h
        rw [State.kind_of_left h, infixAbove_eof ht] at hi
        simp at hi
      obtain ⟨e, s', he, hl⟩ := following_reaches hn hs h0 left own rule
      have hlt : s'.left < s.left := by omega
      obtain ⟨e', s'', he', hl'⟩ := ih s'.left hlt (by omega) e rfl
      exact ⟨e', s'', by rw [extend]; simp [hi, he, hlt, he'], by omega⟩

theorem expression_reaches (ht : t.SparesEnd) (hn : n.Handles d) (hs : s.left ≤ d)
    (power : Power) : Reaches (expression t n power) s (s.left - 1) := by
  refine Reaches.bind_current ?_
  split
  · next rule hr =>
    -- nothing begins at the end of the text
    have h0 : s.left ≠ 0 := by
      intro h
      have hk : s.current.kind = .eof := State.kind_of_left h
      rw [hk, ht.1] at hr
      simp at hr
    refine (opening_reaches hn hs h0 rule).bind fun _ s₁ h₁ => ?_
    exact (extend_reaches ht hn (by omega) _).mono h₁
  · exact take_reaches.bind fun _ _ h₁ => (note_reaches.mono h₁).bind fun _ _ h₂ => .pure h₂

theorem bare_reaches (ht : t.SparesEnd) (hn : n.Handles d) (hs : s.left ≤ d) :
    Reaches (bare t n) s (s.left - 1) := by
  refine Reaches.bind_current ?_
  refine (expression_reaches ht hn hs _).bind fun _ s₁ h₁ => ?_
  refine ((takeIf_reaches _).mono h₁).bind fun _ s₂ h₂ => ?_
  exact (spanFrom_reaches.mono h₂).bind fun _ _ h₃ => .pure h₃

theorem binding_reaches (ht : t.SparesEnd) (hn : n.Handles d) (hs : s.left ≤ d) :
    Reaches (binding t n) s (s.left - 1) := by
  refine take_reaches.bind fun _ s₁ h₁ => ?_
  refine ((expect_reaches _).mono (k := s.left - 1) (by omega)).bind fun _ s₂ h₂ => ?_
  refine ((expect_reaches _).mono (k := s.left - 1) (by omega)).bind fun _ s₃ h₃ => ?_
  refine ((expression_reaches ht hn (by omega) _).mono (k := s.left - 1) (by omega)).bind
    fun _ s₄ h₄ => ?_
  refine ((expect_reaches _).mono (k := s.left - 1) (by omega)).bind fun _ s₅ h₅ => ?_
  exact (spanFrom_reaches.mono h₅).bind fun _ _ h₆ => .pure h₆

theorem returned_reaches (ht : t.SparesEnd) (hn : n.Handles d) (hs : s.left ≤ d) :
    Reaches (returned t n) s s.left := by
  refine Reaches.bind_current ?_
  split
  · exact .pure (Nat.le_refl _)
  · exact (expression_reaches ht hn hs _).mono (by omega)

theorem returning_reaches (ht : t.SparesEnd) (hn : n.Handles d) (hs : s.left ≤ d) :
    Reaches (returning t n) s (s.left - 1) := by
  refine take_reaches.bind fun _ s₁ h₁ => ?_
  refine ((returned_reaches ht hn (by omega)).mono h₁).bind fun _ s₂ h₂ => ?_
  refine ((expect_reaches _).mono (k := s.left - 1) (by omega)).bind fun _ s₃ h₃ => ?_
  exact (spanFrom_reaches.mono h₃).bind fun _ _ h₄ => .pure h₄

theorem statement_reaches (ht : t.SparesEnd) (hn : n.Handles d) (hs : s.left ≤ d) :
    Reaches (statement t n) s (s.left - 1) := by
  refine Reaches.bind_current ?_
  unfold statementBy
  split
  · exact binding_reaches ht hn hs
  · exact returning_reaches ht hn hs
  · exact (block_reaches hn hs).map
  · exact bare_reaches ht hn hs

/-- Readers nested deep enough handle whatever has fewer tokens. -/
theorem nested_handles (ht : t.SparesEnd) (d : Nat) : (nested t d).Handles d := by
  induction d with
  | zero => exact ⟨fun s hs => by omega, fun s hs => by omega⟩
  | succ d ih =>
    exact ⟨fun s hs power => expression_reaches ht ih (by omega) power,
      fun s hs => statement_reaches ht ih (by omega)⟩

theorem skipStatement_reaches : Reaches skipStatement s s.left := by
  refine (collect_reaches rfl fun s' _ _ => ?_).bind fun _ s₁ h₁ => ?_
  · exact take_reaches.bind fun _ _ h => .pure h
  · exact (take_reaches.mono (by omega)).bind fun _ _ h => .pure h

theorem recover_reaches (recovery : Recovery) (before : Nat) :
    Reaches (recover recovery before) s s.left := by
  refine Reaches.bind_get ?_
  split
  · refine Reaches.bind_get ?_
    split
    · exact .pure (Nat.le_refl _)
    · exact skipStatement_reaches
  · exact .pure (Nat.le_refl _)

theorem topLevel_reaches (ht : t.SparesEnd) (hn : n.Handles d) (hs : s.left ≤ d)
    (recovery : Recovery) : Reaches (topLevel t recovery n) s (s.left - 1) := by
  refine Reaches.bind_get ?_
  refine (statement_reaches ht hn hs).bind fun _ s₁ h₁ => ?_
  exact ((recover_reaches recovery _).mono h₁).bind fun _ _ h₂ => .pure h₂

theorem unbounded_reaches {read : Nested → Parse α}
    (h : Reaches (read (nested t (s.left + 1))) s m) : Reaches (unbounded t read) s m := h

/-- A program is read to the end of the text, whatever the tokens. -/
theorem program_reaches (ht : t.SparesEnd) (recovery : Recovery) :
    Reaches (unbounded t (program t recovery)) s s.left := by
  have hn := nested_handles ht (s.left + 1)
  refine unbounded_reaches ?_
  refine (collect_reaches rfl fun s' hs _ =>
    (topLevel_reaches ht hn (by omega) recovery).map).bind fun _ s₁ h₁ => ?_
  exact Reaches.bind_current (.pure h₁)

end Monkey.Descent

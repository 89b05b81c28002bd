import Monkey.Token.Scanner

/-!
# The tokens of a text

A property of lexemes that are read holds of all tokens before the end of a text
(`drain_ahead_forall`). Main statement: only the end of a text is of the kind that says so
(`kind_ne_eof_of_mem_drain`).
-/

namespace Monkey

namespace Kind

theorem ofPair?_ne_eof {c d : Char} {k : Kind} (h : ofPair? c d = some k) : k ≠ .eof := by
  unfold ofPair? at h
  split at h <;> cases h <;> decide

theorem ofMark?_ne_eof {c : Char} {k : Kind} (h : ofMark? c = some k) : k ≠ .eof := by
  unfold ofMark? at h
  split at h <;> cases h <;> decide

theorem ofWord_ne_eof (word : String) : ofWord word ≠ .eof := by
  unfold ofWord ofReserved?
  split <;> decide

end Kind

namespace Lexeme

theorem first_kind_ne_eof (c : Char) (rest : List Char) : (first c rest).1.kind ≠ .eof := by
  unfold first
  split
  · next read h =>
    cases rest with
    | nil => simp [pair?] at h
    | cons d rest =>
      obtain ⟨k, hk, rfl⟩ := Option.map_eq_some_iff.1 h
      exact Kind.ofPair?_ne_eof hk
  · split
    · next k hk => exact Kind.ofMark?_ne_eof hk
    · unfold run word
      split
      · simp
      · split
        · exact Kind.ofWord_ne_eof _
        · simp

/-- No lexeme is of the kind of the end. -/
theorem kind_ne_eof_of_first? {cs rest : List Char} {l : Lexeme} (h : first? cs = some (l, rest)) :
    l.kind ≠ .eof := by
  cases cs with
  | nil => cases h
  | cons c cs =>
    rw [first?] at h
    split at h
    · cases h
    · have := first_kind_ne_eof c cs
      rwa [Option.some.inj h] at this

end Lexeme

namespace Scanner

variable {s r : Scanner} {t : Token}

/-- The stream from a token on, by the stream behind it. -/
theorem drain_cons {u : TokenStream} (h : s.read? = some (t, r)) (hr : r.drain = u) :
    s.drain = u.cons t := by
  rw [drain_of_read?_some h, hr]

/-- What holds of every token that is read holds of all tokens before the end. -/
theorem drain_ahead_forall {p : Token → Prop}
    (h : ∀ {s r : Scanner} {t : Token}, s.read? = some (t, r) → p t) (s : Scanner) :
    ∀ t ∈ s.drain.ahead, p t := by
  induction hm : s.rest.length using Nat.strongRecOn generalizing s with
  | ind m ih =>
    subst hm
    cases hr : s.read? with
    | none =>
      rw [drain_of_read?_none hr]
      intro t ht
      cases ht
    | some read =>
      obtain ⟨t, r⟩ := read
      rw [drain_of_read?_some hr]
      intro u hu
      rcases List.mem_cons.1 hu with rfl | hu
      · exact h hr
      · exact ih _ (read?_rest_length hr) r rfl u hu

theorem kind_ne_eof_of_read? (h : s.read? = some (t, r)) : t.kind ≠ .eof := by
  obtain ⟨⟨l, rest⟩, hl, he⟩ := Option.map_eq_some_iff.1 h
  obtain ⟨rfl, rfl⟩ := Prod.mk.inj he
  exact Lexeme.kind_ne_eof_of_first? hl

/-- **Only the end of a text is of the kind of the end.** -/
theorem kind_ne_eof_of_mem_drain (h : t ∈ s.drain.ahead) : t.kind ≠ .eof :=
  drain_ahead_forall kind_ne_eof_of_read? s t h

end Scanner

end Monkey

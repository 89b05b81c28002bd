import Monkey.Token.Scanner

/-!
# The places of tokens

Tokens stand in a text one behind the other, none of them empty, up to where the text ends
(`Scanner.drain_placed`). So in a text whose offsets all have a name no two tokens start at the same
place (`tokenize_starts`, `tokenize_nodup`).
-/

namespace Monkey

/-- The tokens of a stream stand one behind the other between two offsets, and the text ends behind
them. -/
structure TokenStream.Placed (u : TokenStream) (start stop : Nat) : Prop where
  ordered : u.ahead.Pairwise fun a b => a.span.stop ≤ b.span.start
  inside : ∀ a ∈ u.ahead, start ≤ a.span.start ∧ a.span.start < a.span.stop ∧ a.span.stop ≤ u.stop
  start_le : start ≤ u.stop
  stop_le : u.stop ≤ stop

theorem TokenStream.Placed.cons {u : TokenStream} {t : Token} {start stop : Nat}
    (h : u.Placed t.span.stop stop) (hs : start ≤ t.span.start) (ht : t.span.start < t.span.stop) :
    (u.cons t).Placed start stop := by
  constructor
  · exact List.pairwise_cons.2 ⟨fun a ha => (h.inside a ha).1, h.ordered⟩
  · intro a ha
    rcases List.mem_cons.1 ha with rfl | ha
    · exact ⟨hs, ht, h.start_le⟩
    · obtain ⟨hstart, hrest⟩ := h.inside a ha
      exact ⟨by omega, hrest⟩
  · exact Nat.le_trans hs (Nat.le_trans (Nat.le_of_lt ht) h.start_le)
  · exact h.stop_le

namespace Scanner

variable {s r : Scanner} {t : Token}

theorem skipGap_width (s : Scanner) :
    s.skipGap.offset + Text.width s.skipGap.rest = s.offset + Text.width s.rest := by
  rw [skipGap, Nat.add_assoc, ← Text.width_append, List.takeWhile_append_dropWhile]

/-- A token that is read stands behind the scanner, and the scanner behind it where it stops. -/
theorem span_of_read? (hs : s.offset + Text.width s.rest ≤ Span.limit) (h : s.read? = some (t, r)) :
    s.offset ≤ t.span.start ∧ t.span.start < t.span.stop ∧ r.offset = t.span.stop ∧
      r.offset + Text.width r.rest = s.offset + Text.width s.rest := by
  obtain ⟨⟨l, rest⟩, hl, he⟩ := Option.map_eq_some_iff.1 h
  have hwidth := s.skipGap_width
  have hskip : s.offset ≤ s.skipGap.offset := Nat.le_add_right _ _
  have hlexeme : 0 < Text.width l.chars :=
    Nat.pos_of_ne_zero fun h0 => Lexeme.chars_ne_nil_of_first? hl (Text.width_eq_zero.1 h0)
  rw [← Lexeme.append_of_first? hl, Text.width_append] at hwidth
  obtain ⟨rfl, rfl⟩ := Prod.mk.inj he
  rw [Span.between_of_le (by omega) (by omega)]
  exact ⟨hskip, by simp only; omega, rfl, by simp only; omega⟩

/-- **The tokens of a text stand one behind the other** in what is left of it. -/
theorem drain_placed (h : s.offset + Text.width s.rest ≤ Span.limit) :
    s.drain.Placed s.offset (s.offset + Text.width s.rest) := by
  induction hm : s.rest.length using Nat.strongRecOn generalizing s with
  | ind m ih =>
    subst hm
    cases hr : s.read? with
    | none =>
      rw [drain_of_read?_none hr]
      refine ⟨.nil, List.forall_mem_nil _, Nat.le_add_right _ _, ?_⟩
      rw [← s.skipGap_width]
      exact Nat.le_add_right _ _
    | some read =>
      obtain ⟨t, r⟩ := read
      obtain ⟨hstart, ht, hoffset, hwidth⟩ := span_of_read? h hr
      rw [drain_of_read?_some hr]
      have hrest := ih _ (read?_rest_length hr) (hwidth ▸ h) rfl
      rw [hwidth, hoffset] at hrest
      exact hrest.cons hstart ht

end Scanner

variable {source : String} (h : source.utf8ByteSize ≤ Span.limit)

include h

theorem drain_ofString_placed :
    (Scanner.ofString source).drain.Placed 0 source.utf8ByteSize := by
  have hplaced := Scanner.drain_placed (s := .ofString source)
  simpa [Scanner.ofString, h] using hplaced

theorem final_span :
    (Scanner.ofString source).drain.final.span =
      ⟨(Scanner.ofString source).drain.stop, (Scanner.ofString source).drain.stop⟩ := by
  have hstop := Nat.le_trans (drain_ofString_placed h).stop_le h
  exact Span.between_of_le hstop hstop

/-- **Every token starts behind those before it**, and the end of the text behind them all. -/
theorem tokenize_starts : (tokenize source).Pairwise fun a b => a.span.start < b.span.start := by
  have hplaced := drain_ofString_placed h
  refine List.pairwise_append.2 ⟨?_, List.pairwise_singleton _ _, ?_⟩
  · refine hplaced.ordered.imp_of_mem fun ha _ hab => ?_
    exact Nat.lt_of_lt_of_le (hplaced.inside _ ha).2.1 hab
  · intro a ha b hb
    obtain rfl := List.mem_singleton.1 hb
    rw [final_span h]
    exact Nat.lt_of_lt_of_le (hplaced.inside a ha).2.1 (hplaced.inside a ha).2.2

/-- Every token stops before those behind it start. -/
theorem tokenize_stops : (tokenize source).Pairwise fun a b => a.span.stop ≤ b.span.start := by
  have hplaced := drain_ofString_placed h
  refine List.pairwise_append.2 ⟨hplaced.ordered, List.pairwise_singleton _ _, ?_⟩
  intro a ha b hb
  obtain rfl := List.mem_singleton.1 hb
  rw [final_span h]
  exact (hplaced.inside a ha).2.2

theorem tokenize_nodup : (tokenize source).Nodup := by
  refine (tokenize_starts h).imp ?_
  rintro a b hab rfl
  exact Nat.lt_irrefl _ hab

theorem start_le_of_mem_tokenize {t : Token} (ht : t ∈ tokenize source) :
    t.span.start ≤ source.utf8ByteSize := by
  have hplaced := drain_ofString_placed h
  rcases List.mem_append.1 ht with ht | ht
  · obtain ⟨-, hlt, hle⟩ := hplaced.inside t ht
    exact Nat.le_trans (Nat.le_of_lt hlt) (Nat.le_trans hle hplaced.stop_le)
  · obtain rfl := List.mem_singleton.1 ht
    rw [final_span h]
    exact hplaced.stop_le

end Monkey

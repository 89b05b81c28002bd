import Monkey.Proofs.Accounts
import Monkey.Proofs.Positions

/-!
# No token is lost

A program keeps tokens of its text in their order, each once at most. If reading just goes on after
faults, every other token is reported or is a mark that leaves no trace, and what has no place in
the language is reported exactly once. Main statement: `tokens_conserved`.
-/

namespace Monkey

open Descent

variable {source : String} {ms : List Move} {n : Nat} {t : Token}

theorem Descent.Move.mem_diagnostics {c : Cause} (h : .report c ∈ ms) :
    c.token ∈ (ms.flatMap diagnostics).map (·.cause.token) := by
  refine List.mem_map.2 ⟨⟨c, c.token.span.start⟩, List.mem_flatMap.2 ⟨_, h, ?_⟩, rfl⟩
  exact List.mem_singleton_self _

/-- The tokens before the end of a text are those that do not say that it is the end. -/
theorem filter_tokens (source : String) (n : Nat) :
    ((Scanner.ofString source).drain.ahead ++
        List.replicate n (Scanner.ofString source).drain.final).filter (fun t => t.kind ≠ .eof) =
      (Scanner.ofString source).drain.ahead := by
  rw [List.filter_append, List.filter_eq_self.2, List.filter_eq_nil_iff.2, List.append_nil]
  · intro t ht
    obtain ⟨-, rfl⟩ := List.mem_replicate.1 ht
    simp [TokenStream.final]
  · intro t ht
    simpa using Scanner.kind_ne_eof_of_mem_drain ht

theorem mem_ahead_of_kind (ht : t ∈ tokenize source) (hk : t.kind ≠ .eof) :
    t ∈ (Scanner.ofString source).drain.ahead := by
  rcases List.mem_append.1 ht with ht | ht
  · exact ht
  · obtain rfl := List.mem_singleton.1 ht
    exact absurd rfl hk

theorem tokens_sublist (source : String) (recovery : Recovery) :
    (read source recovery).program.tokens.Sublist (tokenize source) := by
  obtain ⟨ms, n, htokens, -, hsub, -⟩ := read_moves source recovery
  have hkept := hsub.filter fun t => t.kind ≠ .eof
  rw [htokens, filter_tokens] at hkept
  exact hkept.trans (List.sublist_append_left _ _)

/-- A token before the end of a text is reported once at most. -/
theorem count_reported_le (h : source.utf8ByteSize ≤ Span.limit) (recovery : Recovery)
    (ht : t ∈ (Scanner.ofString source).drain.ahead) :
    ((read source recovery).diagnostics.map (·.cause.token)).count t ≤ 1 := by
  obtain ⟨ms, n, htokens, hdiag, -, -⟩ := read_moves source recovery
  have hnodup := (List.nodup_append.1 (tokenize_nodup h)).1
  have hfinal : t ∉ List.replicate n (Scanner.ofString source).drain.final := by
    intro hmem
    obtain ⟨-, rfl⟩ := List.mem_replicate.1 hmem
    exact Scanner.kind_ne_eof_of_mem_drain ht rfl
  calc ((read source recovery).diagnostics.map (·.cause.token)).count t
      ≤ (ms.map Move.token).count t := hdiag ▸ (Move.sublist_tokens ms).count_le t
    _ = (Scanner.ofString source).drain.ahead.count t := by
      rw [htokens, List.count_append, List.count_eq_zero_of_not_mem hfinal, Nat.add_zero]
    _ ≤ 1 := List.nodup_iff_count.1 hnodup t

/-- If reading just goes on after faults, a token that is not kept is reported or is a mark, and one
that has no place in the language is reported. -/
theorem reported_of_mem (ht : t ∈ (Scanner.ofString source).drain.ahead) :
    (t ∉ (read source .lenient).program.tokens →
        t ∈ (read source .lenient).diagnostics.map (·.cause.token) ∨ t.kind.isDelimiter = true) ∧
      (t.kind = .illegal → t ∈ (read source .lenient).diagnostics.map (·.cause.token)) := by
  obtain ⟨ms, n, htokens, hdiag, -, hacc⟩ := read_moves source .lenient
  have hpassed : t ∈ ms.map Move.token := htokens ▸ List.mem_append_left _ ht
  obtain ⟨m, hm, rfl⟩ := List.mem_map.1 hpassed
  rw [hdiag]
  cases m with
  | report c => exact ⟨fun _ => .inl (Move.mem_diagnostics hm), fun _ => Move.mem_diagnostics hm⟩
  | take t =>
    refine ⟨fun hdropped => ?_, fun hk => absurd hk ((hacc rfl).illegal trivial t hm)⟩
    rcases (hacc rfl).missing t hm with hkept | hmark
    · have hkind : t.kind ≠ .eof := Scanner.kind_ne_eof_of_mem_drain ht
      exact absurd (List.mem_filter.2 ⟨hkept, by simpa using hkind⟩) hdropped
    · exact .inr hmark

/-- **No token is lost.** Whatever is done after faults, the tokens that the program of a text keeps
are tokens of the text in their order, each of them once. If reading just goes on, every other token
before the end is reported or is a mark that leaves no trace, and what has no place in the language
is reported exactly once. -/
theorem tokens_conserved (h : source.utf8ByteSize ≤ Span.limit) :
    (∀ recovery, (read source recovery).program.tokens.Sublist (tokenize source) ∧
        (read source recovery).program.tokens.Nodup) ∧
      ∀ t ∈ tokenize source, t.kind ≠ .eof →
        (t ∉ (read source .lenient).program.tokens →
          (∃ d ∈ (read source .lenient).diagnostics, d.cause.token = t) ∨
            t.kind.isDelimiter = true) ∧
        (t.kind = .illegal →
          ((read source .lenient).diagnostics.map (·.cause.token)).count t = 1) := by
  refine ⟨fun recovery => ?_, fun t ht hk => ?_⟩
  · have hsub := tokens_sublist source recovery
    exact ⟨hsub, (tokenize_nodup h).sublist hsub⟩
  · have hmem := mem_ahead_of_kind ht hk
    obtain ⟨hmissing, hillegal⟩ := reported_of_mem hmem
    refine ⟨fun hdropped => (hmissing hdropped).imp_left List.mem_map.1, fun hk => ?_⟩
    exact Nat.le_antisymm (count_reported_le h .lenient hmem) (List.count_pos_iff.2 (hillegal hk))

/-- A name is missing, and a character that has no place in the language stands for it. -/
theorem tokens_conserved_letIllegal :
    "let @ = (1;".utf8ByteSize ≤ Span.limit ∧
      (∀ recovery, (read "let @ = (1;" recovery).program.tokens.Sublist (tokenize "let @ = (1;") ∧
        (read "let @ = (1;" recovery).program.tokens.Nodup) ∧
      ((read "let @ = (1;" .lenient).diagnostics.map (·.cause.token)).count
        ⟨.illegal, "@", ⟨4, 5⟩⟩ = 1 := by
  have hsize : "let @ = (1;".utf8ByteSize ≤ Span.limit := by decide +kernel
  obtain ⟨hkept, htokens⟩ := tokens_conserved hsize
  have hmem : ⟨.illegal, "@", ⟨4, 5⟩⟩ ∈ tokenize "let @ = (1;" := by decide +kernel
  exact ⟨hsize, hkept, (htokens _ hmem (by decide)).2 rfl⟩

end Monkey

import Monkey.Proofs.Accounts
import Monkey.Proofs.Positions

/-!
# The order of faults

The faults of a text are noted in the order of the tokens that they are about, one of each token at
most, and those at the end of the text come last. Main statement: `diagnostics_ordered`.
-/

namespace Monkey

open Descent

variable {source : String} {recovery : Recovery}

/-- The faults of a text are those of tokens before its end, in their order, and then those of the
end. -/
theorem diagnostics_split (source : String) (recovery : Recovery) : ∃ inside atEnd,
    (read source recovery).diagnostics = inside ++ atEnd ∧
      (inside.map (·.cause.token)).Sublist (Scanner.ofString source).drain.ahead ∧
      ∀ d ∈ atEnd, d.cause.token = (Scanner.ofString source).drain.final := by
  obtain ⟨ms, n, htokens, hdiag, -, -⟩ := read_moves source recovery
  obtain ⟨before, behind, rfl, hbefore, hbehind⟩ := List.map_eq_append_iff.1 htokens
  refine ⟨before.flatMap Move.diagnostics, behind.flatMap Move.diagnostics, ?_, ?_, ?_⟩
  · rw [hdiag, List.flatMap_append]
  · exact hbefore ▸ Move.sublist_tokens before
  · intro d hd
    have hmem := (Move.sublist_tokens behind).subset (List.mem_map_of_mem hd)
    rw [hbehind] at hmem
    exact (List.mem_replicate.1 hmem).2

theorem position_of_mem_diagnostics {d : Diagnostic} (hd : d ∈ (read source recovery).diagnostics) :
    d.position = d.cause.token.span.start := by
  obtain ⟨ms, -, -, hdiag, -, -⟩ := read_moves source recovery
  rw [hdiag] at hd
  obtain ⟨m, -, hm⟩ := List.mem_flatMap.1 hd
  exact Move.position_eq hm

/-- A fault is about a token of the text. -/
theorem token_mem_tokenize {d : Diagnostic} (hd : d ∈ (read source recovery).diagnostics) :
    d.cause.token ∈ tokenize source := by
  obtain ⟨inside, atEnd, hsplit, hsub, hend⟩ := diagnostics_split source recovery
  rw [hsplit] at hd
  rcases List.mem_append.1 hd with hd | hd
  · exact List.mem_append_left _ (hsub.subset (List.mem_map_of_mem hd))
  · rw [hend d hd]
    exact List.mem_append_right _ (List.mem_singleton_self _)

/-- **Faults are noted in the order of the text**, whatever is done after them: each at the place of
a token of the text, no two of the same token before the end, and those of the end last. -/
theorem diagnostics_ordered (h : source.utf8ByteSize ≤ Span.limit) (recovery : Recovery) :
    (∀ d ∈ (read source recovery).diagnostics, d.cause.token ∈ tokenize source ∧
        d.position = d.cause.token.span.start ∧ d.position ≤ source.utf8ByteSize) ∧
      ∃ inside atEnd, (read source recovery).diagnostics = inside ++ atEnd ∧
        (∀ d ∈ inside, d.cause.token.kind ≠ .eof) ∧
        (inside.map (·.position)).Pairwise (· < ·) ∧ (inside.map (·.cause.token)).Nodup ∧
        ∀ d ∈ atEnd, d.cause.token.kind = .eof ∧
          (tokenize source).getLast? = some d.cause.token := by
  obtain ⟨inside, atEnd, hsplit, hsub, hend⟩ := diagnostics_split source recovery
  have htokens : (inside.map (·.cause.token)).Sublist (tokenize source) :=
    hsub.trans (List.sublist_append_left _ _)
  have hmem : ∀ d ∈ inside ++ atEnd, d.cause.token ∈ tokenize source :=
    fun d hd => token_mem_tokenize (hsplit ▸ hd)
  have hposition : ∀ d ∈ inside ++ atEnd, d.position = d.cause.token.span.start :=
    fun d hd => position_of_mem_diagnostics (hsplit ▸ hd)
  refine ⟨?_, inside, atEnd, hsplit, ?_, ?_, ?_, ?_⟩
  · rw [hsplit]
    intro d hd
    have hplace := hposition d hd
    exact ⟨hmem d hd, hplace, hplace ▸ start_le_of_mem_tokenize h (hmem d hd)⟩
  · intro d hd
    exact Scanner.kind_ne_eof_of_mem_drain (hsub.subset (List.mem_map_of_mem hd))
  · -- positions are starts of tokens, and these rise along the text
    have hstarts := (tokenize_starts h).sublist htokens
    rw [List.pairwise_map] at hstarts ⊢
    refine hstarts.imp_of_mem fun ha hb hlt => ?_
    rwa [hposition _ (List.mem_append_left _ ha), hposition _ (List.mem_append_left _ hb)]
  · exact (tokenize_nodup h).sublist htokens
  · intro d hd
    rw [hend d hd]
    exact ⟨rfl, List.getLast?_concat⟩

/-- Two faults before the end, and two at it: the second operand and the semicolon are missing. -/
theorem diagnostics_ordered_brokenLet :
    "let 1 @ 2 +".utf8ByteSize ≤ Span.limit ∧
      ∃ inside atEnd, (read "let 1 @ 2 +" .synchronize).diagnostics = inside ++ atEnd ∧
        (inside.map (·.position)).Pairwise (· < ·) ∧
        ∀ d ∈ atEnd, d.cause.token.kind = .eof := by
  have hsize : "let 1 @ 2 +".utf8ByteSize ≤ Span.limit := by decide +kernel
  obtain ⟨-, inside, atEnd, hsplit, -, hrise, -, hend⟩ := diagnostics_ordered hsize .synchronize
  exact ⟨hsize, inside, atEnd, hsplit, hrise, fun d hd => (hend d hd).1⟩

end Monkey

import Monkey.Proofs.Displacement
import Monkey.Proofs.Lossless

/-!
# Cutting and joining texts

How the tokens of a text behave when the text is cut or joined to another. A lexeme that ends in
front of a text ends in front of any first part of it, so a text can be cut in front of a token and
behind one (`Splits.cutFront`, `Splits.cutBehind`). Two texts can be joined where the second one
does not go on with the last lexeme of the first (`Splits.join`), as behind a semicolon. In both
ways the tokens stay what they are, and a part that is moved takes its tokens along
(`Splits.shift`).
-/

namespace Monkey

open Lexeme

variable {start n : Nat} {cs ds gap : List Char} {l : Lexeme} {ts us vs ws : List Token} {t : Token}

namespace Lexeme

/-- Whether a lexeme is legal hangs on the next character alone. -/
theorem Legal.of_head? (h : l.Legal cs) (hhead : ∀ d ∈ ds.head?, d ∈ cs.head?) : l.Legal ds := by
  obtain ⟨hspelled, hends⟩ := legal_iff.1 h
  exact legal_iff.2 ⟨hspelled, fun d hd => hends d (hhead d hd)⟩

/-- Nothing goes on with a semicolon. -/
theorem Legal.of_semicolon (h : l.Legal cs) (hk : l.kind = .semicolon) (ds : List Char) :
    l.Legal ds := by
  cases h with
  | reserved h _ hspelling =>
    have hreserved := Kind.ofReserved?_of_spelling? h hspelling
    obtain rfl : _ = Kind.semicolon := hk
    unfold Kind.ofReserved? at hreserved
    split at hreserved <;> cases hreserved
  | mark hspelling =>
    refine .mark hspelling fun hmark => ?_
    obtain rfl : _ = Kind.semicolon := hk
    rcases hmark with hmark | hmark <;> cases hmark
  | _ => cases hk

theorem Legal.of_apart (h : l.Legal cs) (hapart : Apart ds) : l.Legal ds :=
  legal_iff.2 ⟨(legal_iff.1 h).1, hapart.endsBefore l⟩

/-- A lexeme that stands further on is the same token, further on. -/
theorem placed_shift (h : start + n + Text.width l.chars ≤ Span.limit) :
    (l.placed start).mapSpan (.displace (· + n)) = l.placed (start + n) := by
  unfold placed Token.mapSpan Span.displace
  rw [Span.between_of_le (by omega) (by omega), Span.between_of_le (by omega) (by omega)]
  simp only [Nat.add_right_comm]

end Lexeme

theorem Token.ending_shift (h : start + n ≤ Span.limit) :
    (Token.ending start).mapSpan (.displace (· + n)) = .ending (start + n) := by
  unfold ending mapSpan Span.displace
  rw [Span.between_of_le (by omega) (by omega), Span.between_of_le (by omega) (by omega)]

namespace Text

theorem ne_zero_of_mem_beforeZero {c : Char} (h : c ∈ beforeZero cs) : c ≠ '\x00' := by
  have hclass := List.all_eq_true.1 List.all_takeWhile _ h
  simpa using hclass

/-- A text without a character zero is read to its end. -/
theorem beforeZero_eq_self (h : ∀ c ∈ cs, c ≠ '\x00') : beforeZero cs = cs := by
  have happend := beforeZero_append h []
  have hnil : beforeZero [] = [] := rfl
  rwa [hnil, List.append_nil] at happend

end Text

/-- A text without a character zero is split as a whole. -/
theorem splits_whole {source : String} (h : ∀ c ∈ source.toList, c ≠ '\x00') :
    Splits 0 source.toList (tokenize source) := by
  have hsplits := splits_tokenize source
  rwa [Text.beforeZero_eq_self h] at hsplits

namespace Splits

/-- A gap in front makes no difference. -/
theorem behindGap (hgap : ∀ c ∈ gap, isGap c = true) (h : Splits (start + Text.width gap) cs ts) :
    Splits start (gap ++ cs) ts := by
  generalize hfrom : start + Text.width gap = place at h
  cases h with
  | @ending _ gap' hgap' =>
    rw [← hfrom, Nat.add_assoc, ← Text.width_append]
    exact .ending (List.forall_mem_append.2 ⟨hgap, hgap'⟩)
  | @lexeme _ gap' _ _ _ hgap' hl h =>
    rw [← hfrom, Nat.add_assoc start, ← Text.width_append] at h ⊢
    rw [← List.append_assoc]
    exact .lexeme (List.forall_mem_append.2 ⟨hgap, hgap'⟩) hl h

/-- A text without characters has no lexemes. -/
theorem eq_ending (h : Splits start [] ts) : ts = [.ending start] := by
  generalize htext : [] = cs at h
  cases h with
  | ending =>
    subst htext
    rfl
  | lexeme _ hl =>
    obtain ⟨c, chars, hchars, -, -⟩ := (legal_iff.1 hl).1.begins
    rw [hchars] at htext
    exact absurd htext (by simp)

/-- **Two texts are joined**, where what is legal as the last lexeme of the first one is so in front
of the second one, too. -/
theorem join (h : Splits start cs (ts ++ [t]))
    (hseam : ∀ u ∈ ts.getLast?, ∀ l : Lexeme, l.kind = u.kind → l.Legal [] → l.Legal ds)
    (hd : Splits (start + Text.width cs) ds us) : Splits start (cs ++ ds) (ts ++ us) := by
  generalize htokens : ts ++ [t] = all at h
  induction h generalizing ts with
  | ending hgap =>
    cases ts with
    | nil => exact hd.behindGap hgap
    | cons u ts =>
      obtain ⟨-, hnil⟩ := List.cons.inj htokens
      exact absurd hnil (by simp)
  | @lexeme start gap cs l all hgap hl h ih =>
    cases ts with
    | nil =>
      obtain ⟨-, rfl⟩ := List.cons.inj htokens
      cases h
    | cons u ts =>
      obtain ⟨rfl, rfl⟩ := List.cons.inj htokens
      have hbehind : ∀ u ∈ ts.getLast?, ∀ l : Lexeme, l.kind = u.kind → l.Legal [] →
          l.Legal ds := by
        intro u hu
        apply hseam u
        rw [List.getLast?_cons, hu]
        rfl
      rw [Text.width_append, Text.width_append, ← Nat.add_assoc, ← Nat.add_assoc] at hd
      have hlegal : l.Legal (cs ++ ds) := by
        cases cs with
        | cons c cs => exact hl.of_head? fun d hd => hd
        | nil =>
          -- then the lexeme is the last one
          have hend : ts ++ [t] = [] ++ [.ending _] := h.eq_ending
          obtain ⟨rfl, -⟩ := List.append_inj' hend rfl
          exact hseam _ rfl l rfl hl
      rw [List.append_assoc, List.append_assoc]
      exact .lexeme hgap hlegal (ih hbehind hd rfl)

/-- Two texts are joined behind a semicolon, if the first one has any tokens. -/
theorem append (h : Splits start cs (ts ++ [t])) (hlast : ∀ u ∈ ts.getLast?, u.kind = .semicolon)
    (hd : Splits (start + Text.width cs) ds us) : Splits start (cs ++ ds) (ts ++ us) :=
  h.join (fun u hu _ hk hl => hl.of_semicolon (hk.trans (hlast u hu)) ds) hd

/-- Two texts are joined where the second one begins with what goes on with no lexeme. -/
theorem joinApart (h : Splits start cs (ts ++ [t])) (hapart : Apart ds)
    (hd : Splits (start + Text.width cs) ds us) : Splits start (cs ++ ds) (ts ++ us) :=
  h.join (fun _ _ _ _ hl => hl.of_apart hapart) hd

/-- **What is moved takes its tokens along.** -/
theorem shift (h : Splits start cs ts) (hlimit : start + n + Text.width cs ≤ Span.limit) :
    Splits (start + n) cs (ts.map (Token.mapSpan (.displace (· + n)))) := by
  induction h with
  | @ending start gap hgap =>
    rw [List.map_cons, List.map_nil, Token.ending_shift (by omega), Nat.add_right_comm]
    exact .ending hgap
  | @lexeme start gap cs l ts hgap hl _ ih =>
    rw [Text.width_append, Text.width_append] at hlimit
    have hbehind := ih (by omega)
    have hplace : start + Text.width gap + Text.width l.chars + n =
        start + n + Text.width gap + Text.width l.chars := by omega
    rw [hplace] at hbehind
    rw [List.map_cons, Lexeme.placed_shift (by omega), Nat.add_right_comm start]
    exact .lexeme hgap hl hbehind

/-- A text has its tokens only once, wherever it begins. -/
theorem unique (h : Splits start cs ts) (h' : Splits start cs us) : us = ts := by
  have hrest : ∀ c ∈ ([] : List Char).head?, c = '\x00' := fun c hc => by cases hc
  exact (h'.drain_eq hrest).symm.trans (h.drain_eq hrest)

/-- **A text is cut in front of a token** that is not its end. -/
theorem cutFront (h : Splits start cs (us ++ t :: ts)) (hk : t.kind ≠ .eof)
    (hlimit : start + Text.width cs ≤ Span.limit) :
    ∃ front behind, cs = front ++ behind ∧ t.span.start = start + Text.width front ∧
      Splits (start + Text.width front) behind (t :: ts) := by
  generalize htokens : us ++ t :: ts = all at h
  induction h generalizing us with
  | @ending start gap _ =>
    have hmem : t ∈ [Token.ending (start + Text.width gap)] := htokens ▸ by simp
    rw [List.mem_singleton.1 hmem] at hk
    exact absurd rfl hk
  | @lexeme start gap cs l all hgap hl h ih =>
    rw [Text.width_append, Text.width_append] at hlimit
    cases us with
    | nil =>
      obtain ⟨rfl, rfl⟩ := List.cons.inj htokens
      refine ⟨gap, l.chars ++ cs, rfl, ?_, ?_⟩
      · rw [placed, Span.between_of_le (by omega) (by omega)]
      · have hnogap : ∀ c ∈ ([] : List Char), isGap c = true := List.forall_mem_nil _
        exact .lexeme hnogap hl h
    | cons u us =>
      obtain ⟨rfl, rfl⟩ := List.cons.inj htokens
      obtain ⟨front, behind, rfl, hplace, hsplits⟩ := ih (by omega) rfl
      have hwidth : start + Text.width gap + Text.width l.chars + Text.width front =
          start + Text.width (gap ++ (l.chars ++ front)) := by
        rw [Text.width_append, Text.width_append]
        omega
      rw [hwidth] at hplace hsplits
      exact ⟨gap ++ (l.chars ++ front), behind, by simp, hplace, hsplits⟩

/-- **A text is cut behind a token** that is not its end. -/
theorem cutBehind (h : Splits start cs (us ++ t :: ts)) (hk : t.kind ≠ .eof)
    (hlimit : start + Text.width cs ≤ Span.limit) :
    ∃ front behind, cs = front ++ behind ∧ t.span.stop = start + Text.width front ∧
      Splits start front (us ++ [t, .ending (start + Text.width front)]) := by
  generalize htokens : us ++ t :: ts = all at h
  induction h generalizing us with
  | @ending start gap _ =>
    have hmem : t ∈ [Token.ending (start + Text.width gap)] := htokens ▸ by simp
    rw [List.mem_singleton.1 hmem] at hk
    exact absurd rfl hk
  | @lexeme start gap cs l all hgap hl h ih =>
    rw [Text.width_append, Text.width_append] at hlimit
    cases us with
    | nil =>
      obtain ⟨rfl, rfl⟩ := List.cons.inj htokens
      -- in front of the end of a text any lexeme is legal that is so in front of more
      have hlegal : l.Legal [] := hl.of_head? fun d hd => by cases hd
      have hwidth : start + Text.width (gap ++ (l.chars ++ [])) =
          start + Text.width gap + Text.width l.chars + Text.width [] := by
        rw [Text.width_append, Text.width_append]
        omega
      refine ⟨gap ++ (l.chars ++ []), cs, by simp, ?_, ?_⟩
      · rw [placed, Span.between_of_le (by omega) (by omega), hwidth]
        rfl
      · rw [hwidth]
        exact .lexeme hgap hlegal (.ending (List.forall_mem_nil _))
    | cons u us =>
      obtain ⟨rfl, rfl⟩ := List.cons.inj htokens
      obtain ⟨front, behind, rfl, hplace, hsplits⟩ := ih (by omega) rfl
      have hwidth : start + Text.width gap + Text.width l.chars + Text.width front =
          start + Text.width (gap ++ (l.chars ++ front)) := by
        rw [Text.width_append, Text.width_append]
        omega
      rw [hwidth] at hplace hsplits
      have hlegal : l.Legal front := hl.of_head? fun d hd => by
        cases front with
        | nil => cases hd
        | cons c front => exact hd
      exact ⟨gap ++ (l.chars ++ front), behind, by simp, hplace, .lexeme hgap hlegal hsplits⟩

end Splits

end Monkey

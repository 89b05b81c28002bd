import Monkey.Proofs.Bytes
import Monkey.Proofs.Positions
import Monkey.Proofs.Splitting
import Monkey.Proofs.Tokens

/-!
# Tokens tell all of a text

From the tokens of a text it can be told up to its end, byte by byte: each token shows what stands
at its span, and whatever stands at no span is a gap (`Recounts`). The facts are read off the way in
which tokens split a text (`Splits.mem_cases`, `Splits.mem_gapBytes`). Main statement:
`tokenize_recounts`.
-/

namespace Monkey

open Lexeme

/-- The span reaches over the byte at an offset. -/
def Span.Holds (s : Span) (i : Nat) : Prop := s.start ≤ i ∧ i < s.stop

/-- The tokens recount a text of which these are the bytes. -/
structure Recounts (ts : List Token) (bytes : List UInt8) : Prop where
  /-- Each token starts behind those before it. -/
  ordered : ts.Pairwise fun a b => a.span.start < b.span.start ∧ a.span.stop ≤ b.span.start
  /-- What stands at the span of a token is its text. -/
  text : ∀ t ∈ ts, t.span.start ≤ t.span.stop ∧
    bytes.extract t.span.start t.span.stop = t.text.toUTF8.data.toList
  /-- Only the end of the text has no text, and no text holds a part of a gap or of the end. -/
  solid : ∀ t ∈ ts, (t.kind ≠ .eof → t.text ≠ "") ∧
    ∀ c ∈ t.text.toList, isGap c = false ∧ c ≠ '\x00'
  /-- The end stands behind all else, at the first zero byte or else behind the last byte. -/
  ending : ∃ us, ts = us ++ [⟨.eof, "", ⟨bytes.idxOf 0, bytes.idxOf 0⟩⟩] ∧
    ∀ t ∈ us, t.kind ≠ .eof
  /-- What stands in front of the end and at no span is a gap. -/
  gap : ∀ i b, i < bytes.idxOf 0 → bytes[i]? = some b → (∀ t ∈ ts, ¬t.span.Holds i) →
    b ∈ Text.gapBytes

namespace Splits

variable {start : Nat} {cs : List Char} {ts : List Token} {t : Token}

/-- The last token is the end of the text. -/
theorem ends (h : Splits start cs ts) : ∃ us, ts = us ++ [.ending (start + Text.width cs)] := by
  induction h with
  | ending => exact ⟨[], rfl⟩
  | @lexeme start gap cs l ts _ _ _ ih =>
    obtain ⟨us, rfl⟩ := ih
    refine ⟨l.placed (start + Text.width gap) :: us, ?_⟩
    have hstop : start + Text.width gap + Text.width l.chars + Text.width cs =
        start + Text.width (gap ++ (l.chars ++ cs)) := by
      rw [Text.width_append, Text.width_append]
      omega
    rw [hstop, List.cons_append]

/-- A token is the end of the text, or a lexeme at the place where its spelling stands. -/
theorem mem_cases (h : Splits start cs ts) (ht : t ∈ ts) :
    t = .ending (start + Text.width cs) ∨
      ∃ front behind, ∃ l : Lexeme, cs = front ++ (l.chars ++ behind) ∧ l.Spelled ∧
        t = l.placed (start + Text.width front) := by
  induction h with
  | ending => exact .inl (List.mem_singleton.1 ht)
  | @lexeme start gap cs l ts _ hl _ ih =>
    rcases List.mem_cons.1 ht with rfl | ht
    · exact .inr ⟨gap, cs, l, rfl, (legal_iff.1 hl).1, rfl⟩
    · rcases ih ht with rfl | ⟨front, behind, m, rfl, hm, rfl⟩
      · left
        rw [Text.width_append, Text.width_append, Nat.add_assoc, Nat.add_assoc]
      · right
        refine ⟨gap ++ (l.chars ++ front), behind, m, ?_, hm, ?_⟩
        · rw [List.append_assoc, List.append_assoc]
        · rw [Text.width_append, Text.width_append, Nat.add_assoc, Nat.add_assoc]

/-- **What stands at no span is a gap.** -/
theorem mem_gapBytes (h : Splits start cs ts) (hlimit : start + Text.width cs ≤ Span.limit)
    {i : Nat} {b : UInt8} (hb : (Text.bytes cs)[i]? = some b)
    (hfree : ∀ t ∈ ts, ¬t.span.Holds (start + i)) : b ∈ Text.gapBytes := by
  induction h generalizing i with
  | ending hgap => exact Text.mem_gapBytes hgap (List.mem_of_getElem? hb)
  | @lexeme start gap cs l ts hgap _ _ ih =>
    rw [Text.width_append, Text.width_append] at hlimit
    rw [Text.bytes_append, Text.bytes_append] at hb
    by_cases hi : i < Text.width gap
    · rw [List.getElem?_append_left (by rwa [Text.length_bytes])] at hb
      exact Text.mem_gapBytes hgap (List.mem_of_getElem? hb)
    · rw [List.getElem?_append_right (by rw [Text.length_bytes]; omega), Text.length_bytes] at hb
      -- the lexeme stands at a span, so the byte is behind it
      have hbehind : Text.width l.chars ≤ i - Text.width gap := by
        apply Nat.le_of_not_lt
        intro hlt
        apply hfree _ List.mem_cons_self
        rw [placed, Span.between_of_le (by omega) (by omega)]
        unfold Span.Holds
        dsimp only
        omega
      rw [List.getElem?_append_right (by rwa [Text.length_bytes]), Text.length_bytes] at hb
      apply ih (by omega) hb
      intro t ht
      have hplace : start + Text.width gap + Text.width l.chars +
          (i - Text.width gap - Text.width l.chars) = start + i := by
        omega
      rw [hplace]
      exact hfree t (List.mem_cons_of_mem _ ht)

/-- What stands at the span of a token is its text. -/
theorem extract_bytes (h : Splits 0 cs ts) (hlimit : Text.width cs ≤ Span.limit)
    (rest : List Char) (ht : t ∈ ts) : t.span.start ≤ t.span.stop ∧
      (Text.bytes (cs ++ rest)).extract t.span.start t.span.stop = Text.bytes t.text.toList := by
  rcases h.mem_cases ht with rfl | ⟨front, behind, l, rfl, -, rfl⟩
  · rw [Token.ending, Nat.zero_add, Span.between_of_le hlimit hlimit]
    refine ⟨Nat.le_refl _, ?_⟩
    rw [List.extract, Nat.sub_self]
    rfl
  · rw [Text.width_append, Text.width_append] at hlimit
    rw [placed, Nat.zero_add, Span.between_of_le (by omega) (by omega)]
    refine ⟨Nat.le_add_right _ _, ?_⟩
    rw [List.append_assoc, List.append_assoc, Text.extract_bytes, String.toList_ofList]

/-- A token has a text unless it is the end, and its text holds no part of a gap. -/
theorem solid (h : Splits start cs ts) (ht : t ∈ ts) : (t.kind ≠ .eof → t.text ≠ "") ∧
    ∀ c ∈ t.text.toList, isGap c = false ∧ c ≠ '\x00' := by
  rcases h.mem_cases ht with rfl | ⟨front, behind, l, -, hl, rfl⟩
  · exact ⟨fun hk => absurd rfl hk, fun c hc => by cases hc⟩
  · have htext : (l.placed (start + Text.width front)).text.toList = l.chars := String.toList_ofList
    refine ⟨fun _ hempty => ?_, htext ▸ hl.chars_class⟩
    obtain ⟨c, chars, hchars, -, -⟩ := hl.begins
    rw [hempty, hchars] at htext
    cases htext

end Splits

/-- No token starts behind the greatest offset that has a name. -/
theorem start_le_limit_of_mem_tokenize {source : String} {t : Token} (ht : t ∈ tokenize source) :
    t.span.start ≤ Span.limit := by
  rcases (splits_tokenize source).mem_cases ht with rfl | ⟨front, behind, l, -, -, rfl⟩
  all_goals exact Nat.min_le_right _ _

/-- The first zero byte stands where a text is at its end. -/
theorem Text.idxOf_zero_bytes (cs : List Char) : (bytes cs).idxOf 0 = width (beforeZero cs) := by
  obtain ⟨rest, hcs, hrest⟩ := beforeZero_rest cs
  have hbefore : (0 : UInt8) ∉ bytes (beforeZero cs) := by
    intro hzero
    have hmem := zero_mem_bytes.1 hzero
    have hclass := List.all_eq_true.1 List.all_takeWhile _ hmem
    simp at hclass
  have hhead : (bytes rest).idxOf 0 = 0 := by
    cases rest with
    | nil => rfl
    | cons c rest =>
      obtain rfl := hrest c rfl
      rfl
  calc (bytes cs).idxOf 0
      = (bytes (beforeZero cs) ++ bytes rest).idxOf 0 := by rw [← bytes_append, ← hcs]
    _ = (bytes rest).idxOf 0 + (bytes (beforeZero cs)).length := by
        rw [List.idxOf_append, if_neg hbefore]
    _ = width (beforeZero cs) := by rw [length_bytes, hhead, Nat.zero_add]

/-- What stands behind a character zero makes no difference to the tokens. -/
theorem tokenize_append_zero (source behind : String) :
    tokenize (source ++ "\x00" ++ behind) = tokenize source := by
  have hread : Text.beforeZero (source ++ "\x00" ++ behind).toList =
      Text.beforeZero source.toList := by
    rw [String.toList_append, String.toList_append, List.append_assoc]
    exact Text.beforeZero_append_zero source.toList behind.toList
  have hsplits := splits_tokenize (source ++ "\x00" ++ behind)
  rw [hread] at hsplits
  exact hsplits.eq_tokenize

/-- **The tokens of a text recount it**, and what stands behind a character zero makes no
difference to them. -/
theorem tokenize_recounts {source : String} (h : source.utf8ByteSize ≤ Span.limit) :
    Recounts (tokenize source) source.toUTF8.data.toList ∧
      ∀ behind, tokenize (source ++ "\x00" ++ behind) = tokenize source := by
  rw [← Text.bytes_toList]
  obtain ⟨rest, hsource, -⟩ := Text.beforeZero_rest source.toList
  have hsplits := splits_tokenize source
  have hlimit : Text.width (Text.beforeZero source.toList) ≤ Span.limit := by
    rw [← Text.width_toList, hsource, Text.width_append] at h
    omega
  have hstop := Text.idxOf_zero_bytes source.toList
  refine ⟨⟨(tokenize_starts h).and (tokenize_stops h), ?_, fun t ht => hsplits.solid ht, ?_, ?_⟩,
    tokenize_append_zero source⟩
  · intro t ht
    rw [← Text.bytes_toList, hsource]
    exact hsplits.extract_bytes hlimit rest ht
  · obtain ⟨us, htokens⟩ := hsplits.ends
    obtain ⟨rfl, -⟩ := List.append_inj' htokens rfl
    refine ⟨(Scanner.ofString source).drain.ahead, ?_, fun t => Scanner.kind_ne_eof_of_mem_drain⟩
    rw [htokens, hstop, Nat.zero_add, Token.ending, Span.between_of_le hlimit hlimit]
  · intro i b hi hb hfree
    rw [hstop] at hi
    rw [hsource, Text.bytes_append, List.getElem?_append_left (by rwa [Text.length_bytes])] at hb
    apply hsplits.mem_gapBytes (by omega) hb
    rwa [Nat.zero_add]

/-- A letter of two bytes that has no place in the language, gaps, signs side by side, and a letter
behind the end of the text. -/
theorem tokenize_recounts_behindZero :
    "é =\r\n==!\x00x".utf8ByteSize ≤ Span.limit ∧
      Recounts (tokenize "é =\r\n==!\x00x") "é =\r\n==!\x00x".toUTF8.data.toList ∧
      tokenize "é =\r\n==!\x00x" = [⟨.illegal, "é", ⟨0, 2⟩⟩, ⟨.assign, "=", ⟨3, 4⟩⟩,
        ⟨.equals, "==", ⟨6, 8⟩⟩, ⟨.bang, "!", ⟨8, 9⟩⟩, ⟨.eof, "", ⟨9, 9⟩⟩] := by
  have hsize : "é =\r\n==!\x00x".utf8ByteSize ≤ Span.limit := by decide +kernel
  obtain ⟨hrecounts, -⟩ := tokenize_recounts hsize
  exact ⟨hsize, hrecounts, by decide +kernel⟩

end Monkey

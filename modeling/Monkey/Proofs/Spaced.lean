import Monkey.Proofs.Seams

/-!
# Lexemes written with gaps between them

Writing lexemes with gaps between them and splitting the text again gives the lexemes back: behind
a gap stands nothing that goes on with a lexeme, so each of them ends where its spelling does. The
text is put together item by item (`Text.spaced`), and so is its splitting (`Splits.spaced`). Where
a lexeme was written is told by the width of what was written in front of it
(`tokens_spaced_getElem?`). Main statement: `tokenize_spaced`.
-/

namespace Monkey

open Lexeme

/-- Lexemes as a text, each with a gap in front of it, and a last gap behind them all. -/
def Text.spaced : List (List Char × Lexeme) → List Char → List Char
  | [], last => last
  | (gap, l) :: items, last => gap ++ (l.chars ++ spaced items last)

/-- The lexemes are spelled as their kinds demand, gaps are made of what may stand between lexemes,
and only at either end of the text may a gap be empty. -/
structure Spaced (items : List (List Char × Lexeme)) (last : List Char) : Prop where
  /-- A lexeme is legal on its own, whatever stands next to it. -/
  spelled : ∀ item ∈ items, item.2.Legal []
  gaps : ∀ item ∈ items, ∀ c ∈ item.1, isGap c = true
  apart : ∀ item ∈ items.tail, item.1 ≠ []
  last : ∀ c ∈ last, isGap c = true

/-- The tokens of such a text from an offset on. -/
def Token.spaced : Nat → List (List Char × Lexeme) → List Char → List Token
  | start, [], last => [.ending (start + Text.width last)]
  | start, (gap, l) :: items, last =>
    l.placed (start + Text.width gap) ::
      spaced (start + Text.width gap + Text.width l.chars) items last

variable {items front behind : List (List Char × Lexeme)} {last gap : List Char} {l : Lexeme}
  {c : Char} {start : Nat}

/-- A gap goes on with no lexeme, and an empty one does not when nothing follows. -/
theorem apart_gap (h : ∀ c ∈ gap, isGap c = true) {rest : List Char}
    (hne : gap = [] → rest = []) : Apart (gap ++ rest) := by
  cases gap with
  | nil =>
    rw [hne rfl]
    exact apart_nil
  | cons c gap =>
    have hc : isGap c = true := h c List.mem_cons_self
    refine apart_cons ⟨?_, ?_, ?_⟩
    · cases hdigit : c.isDigit with
      | false => rfl
      | true => rw [(begins_of_class (.inl hdigit)).1] at hc; cases hc
    · cases halpha : c.isAlpha with
      | false => rfl
      | true => rw [(begins_of_class (.inr (.inl halpha))).1] at hc; cases hc
    · rintro rfl
      cases hc

namespace Spaced

theorem tail {item : List Char × Lexeme} (h : Spaced (item :: items) last) :
    Spaced items last where
  spelled := fun i hi => h.spelled i (List.mem_cons_of_mem _ hi)
  gaps := fun i hi => h.gaps i (List.mem_cons_of_mem _ hi)
  apart := fun i hi => h.apart i (List.mem_of_mem_tail hi)
  last := h.last

/-- What is written behind a lexeme does not go on with it. -/
theorem apart_behind {item : List Char × Lexeme} (h : Spaced (item :: items) last) :
    Apart (Text.spaced items last) := by
  cases items with
  | nil =>
    have happart : Apart (last ++ []) := apart_gap h.last fun _ => rfl
    rwa [List.append_nil] at happart
  | cons next items =>
    have hgap : next.1 ≠ [] := h.apart next List.mem_cons_self
    exact apart_gap (h.gaps next (List.mem_cons_of_mem _ List.mem_cons_self)) fun h0 =>
      absurd h0 hgap

/-- **What is written is split as it was written.** -/
theorem splits (h : Spaced items last) (start : Nat) :
    Splits start (Text.spaced items last) (Token.spaced start items last) := by
  induction items generalizing start with
  | nil => exact .ending h.last
  | cons item items ih =>
    have hlegal : item.2.Legal (Text.spaced items last) :=
      (h.spelled item List.mem_cons_self).of_apart h.apart_behind
    exact .lexeme (h.gaps item List.mem_cons_self) hlegal (ih h.tail _)

/-- No character zero is written. -/
theorem ne_zero (h : Spaced items last) : ∀ c ∈ Text.spaced items last, c ≠ '\x00' := by
  induction items with
  | nil => exact fun c hc => not_zero_of_isGap (h.last c hc)
  | cons item items ih =>
    intro c hc
    rcases List.mem_append.1 hc with hgap | hc
    · exact not_zero_of_isGap (h.gaps item List.mem_cons_self c hgap)
    rcases List.mem_append.1 hc with hspelling | hbehind
    · have hspelled := (legal_iff.1 (h.spelled item List.mem_cons_self)).1
      exact (hspelled.chars_class c hspelling).2
    · exact ih h.tail c hbehind

theorem tokenize_eq (h : Spaced items last) :
    tokenize (String.ofList (Text.spaced items last)) = Token.spaced 0 items last := by
  have hsplits := h.splits 0
  rw [← Text.beforeZero_eq_self h.ne_zero, ← String.toList_ofList (l := Text.spaced items last)]
    at hsplits
  exact hsplits.eq_tokenize.symm

end Spaced

theorem lexemes_spaced (start : Nat) (items : List (List Char × Lexeme)) (last : List Char) :
    (Token.spaced start items last).map Token.lexeme = items.map (·.2) ++ [⟨.eof, []⟩] := by
  induction items generalizing start with
  | nil => rfl
  | cons item items ih =>
    have hlexeme : (item.2.placed (start + Text.width item.1)).lexeme = item.2 := by
      rw [placed, Token.lexeme, String.toList_ofList]
    rw [Token.spaced, List.map_cons, hlexeme, ih]
    rfl

/-- An item stands in front of the items behind it. -/
theorem Text.width_spaced_cons (item : List Char × Lexeme) (items : List (List Char × Lexeme))
    (last : List Char) : width (spaced (item :: items) last) =
      width item.1 + width item.2.chars + width (spaced items last) := by
  rw [spaced, width_append, width_append, Nat.add_assoc]

/-- A lexeme stands behind what was written in front of it. -/
theorem tokens_spaced_getElem? (start : Nat) (front behind : List (List Char × Lexeme))
    (gap last : List Char) (l : Lexeme) :
    (Token.spaced start (front ++ (gap, l) :: behind) last)[front.length]? =
      some (l.placed (start + Text.width (Text.spaced front gap))) := by
  induction front generalizing start with
  | nil => rfl
  | cons item front ih =>
    rw [Text.width_spaced_cons, ← Nat.add_assoc, ← Nat.add_assoc]
    exact ih _

/-- The end stands behind all that was written. -/
theorem tokens_spaced_getElem?_length (start : Nat) (items : List (List Char × Lexeme))
    (last : List Char) :
    (Token.spaced start items last)[items.length]? =
      some (.ending (start + Text.width (Text.spaced items last))) := by
  induction items generalizing start with
  | nil => rfl
  | cons item items ih =>
    rw [Text.width_spaced_cons, ← Nat.add_assoc, ← Nat.add_assoc]
    exact ih _

theorem Text.spaced_items (front items : List (List Char × Lexeme)) (last : List Char) :
    spaced (front ++ items) last = spaced front (spaced items last) := by
  induction front with
  | nil => rfl
  | cons item front ih => rw [List.cons_append, spaced, spaced, ih]

theorem Text.spaced_last (items : List (List Char × Lexeme)) (last cs : List Char) :
    spaced items (last ++ cs) = spaced items last ++ cs := by
  induction items with
  | nil => rfl
  | cons item items ih => rw [spaced, spaced, ih, List.append_assoc, List.append_assoc]

/-- **Splitting undoes writing**: of lexemes that are written with gaps between them the tokens have
the kinds and the spellings, each at the place where it was written, and the end stands behind them. -/
theorem tokenize_spaced (h : Spaced items last)
    (hlimit : Text.width (Text.spaced items last) ≤ Span.limit) :
    (tokenize (String.ofList (Text.spaced items last))).map Token.lexeme =
        items.map (·.2) ++ [⟨.eof, []⟩] ∧
      (∀ front gap l behind, items = front ++ (gap, l) :: behind →
        (tokenize (String.ofList (Text.spaced items last)))[front.length]? =
          some ⟨l.kind, String.ofList l.chars, ⟨Text.width (Text.spaced front gap),
            Text.width (Text.spaced front (gap ++ l.chars))⟩⟩) ∧
      (tokenize (String.ofList (Text.spaced items last)))[items.length]? =
        some ⟨.eof, "", ⟨Text.width (Text.spaced items last),
          Text.width (Text.spaced items last)⟩⟩ := by
  rw [h.tokenize_eq]
  refine ⟨lexemes_spaced 0 items last, ?_, ?_⟩
  · rintro front gap l behind rfl
    -- the text up to the lexeme, the lexeme, and what is written behind it
    have htext : Text.spaced (front ++ (gap, l) :: behind) last =
        Text.spaced front gap ++ (l.chars ++ Text.spaced behind last) := by
      rw [Text.spaced_items, Text.spaced, Text.spaced_last]
    have hstop : Text.width (Text.spaced front (gap ++ l.chars)) =
        Text.width (Text.spaced front gap) + Text.width l.chars := by
      rw [Text.spaced_last, Text.width_append]
    rw [htext, Text.width_append, Text.width_append] at hlimit
    rw [tokens_spaced_getElem?, Nat.zero_add, placed, hstop,
      Span.between_of_le (by omega) (by omega)]
  · rw [tokens_spaced_getElem?_length, Nat.zero_add, Token.ending,
      Span.between_of_le hlimit hlimit]

/-- A letter of two bytes that has no place in the language, a reserved word, an equality and a number
with a zero in front, with gaps of every kind. -/
theorem tokenize_spaced_mixed : ∃ items last, Spaced items last ∧
    String.ofList (Text.spaced items last) = "é \nlet\t==\r\n07 " ∧
    Text.width (Text.spaced items last) ≤ Span.limit ∧
    (tokenize "é \nlet\t==\r\n07 ").map Token.lexeme = items.map (·.2) ++ [⟨.eof, []⟩] ∧
    (tokenize "é \nlet\t==\r\n07 ")[1]? = some ⟨.letWord, "let", ⟨4, 7⟩⟩ ∧
    (tokenize "é \nlet\t==\r\n07 ")[4]? = some ⟨.eof, "", ⟨15, 15⟩⟩ := by
  have hspaced : Spaced [([], ⟨.illegal, ['é']⟩), ([' ', '\n'], ⟨.letWord, ['l', 'e', 't']⟩),
      (['\t'], ⟨.equals, ['=', '=']⟩), (['\r', '\n'], ⟨.integer, ['0', '7']⟩)] [' '] := by
    refine ⟨?_, by simp [isGap], by decide, by simp [isGap]⟩
    have hillegal : Lexeme.Legal ⟨.illegal, ['é']⟩ [] :=
      .illegal (by decide) (by decide) (by decide) (by decide) fun k => by cases k <;> decide
    have hword : Lexeme.Legal ⟨.letWord, ['l', 'e', 't']⟩ [] :=
      .reserved (List.all_eq_true.1 rfl) (by simp) rfl
    have hnumber : Lexeme.Legal ⟨.integer, ['0', '7']⟩ [] :=
      .integer (by decide) (List.all_eq_true.1 rfl) (by simp)
    simpa using ⟨hillegal, hword, .equals, hnumber⟩
  have hlimit : Text.width (Text.spaced [([], ⟨.illegal, ['é']⟩),
      ([' ', '\n'], ⟨.letWord, ['l', 'e', 't']⟩), (['\t'], ⟨.equals, ['=', '=']⟩),
      (['\r', '\n'], ⟨.integer, ['0', '7']⟩)] [' ']) ≤ Span.limit := by decide
  obtain ⟨hlexemes, hplaces, hend⟩ := tokenize_spaced hspaced hlimit
  exact ⟨_, _, hspaced, rfl, hlimit, hlexemes, hplaces [_] _ _ _ rfl, hend⟩

end Monkey

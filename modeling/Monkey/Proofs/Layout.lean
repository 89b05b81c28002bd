import Monkey.Proofs.Spelling
import Monkey.Token.Scanner

/-!
# Layout

A text that is laid out from lexemes (`Layout`): each stands behind a gap, which may be empty, and
what follows it does not go on with it. A character that is no digit, no letter and no equals sign
goes on with no lexeme (`Apart`). Main statement: a scanner yields the lexemes that a text is
laid out from (`Layout.drain_lexemes`).
-/

namespace Monkey

open Lexeme

/-- A token without its place. -/
def Token.lexeme (t : Token) : Lexeme := ⟨t.kind, t.text.toList⟩

theorem Token.kind_eq {t u : Token} (h : t.lexeme = u.lexeme) : t.kind = u.kind :=
  congrArg Lexeme.kind h

theorem Token.text_eq {t u : Token} (h : t.lexeme = u.lexeme) : t.text = u.text :=
  String.toList_inj.1 (congrArg Lexeme.chars h)

theorem Token.lexeme_eq_iff {t u : Token} :
    t.lexeme = u.lexeme ↔ t.kind = u.kind ∧ t.text = u.text := by
  refine ⟨fun h => ⟨kind_eq h, text_eq h⟩, fun ⟨hkind, htext⟩ => ?_⟩
  rw [lexeme, lexeme, hkind, htext]

/-- The text is laid out from lexemes, and behind them and a last gap stands the rest. -/
inductive Layout : List Char → List Lexeme → List Char → Prop where
  | nil {gap rest : List Char} (hgap : ∀ c ∈ gap, isGap c = true) : Layout (gap ++ rest) [] rest
  | cons {gap cs rest : List Char} {l : Lexeme} {ls : List Lexeme}
      (hgap : ∀ c ∈ gap, isGap c = true) (hl : l.Spelled) (hcs : l.EndsBefore cs)
      (h : Layout cs ls rest) : Layout (gap ++ (l.chars ++ cs)) (l :: ls) rest

variable {gap cs ds rest : List Char} {l : Lexeme} {ls ms : List Lexeme} {c d : Char}
  {k : Kind}

/-- The text begins with no character that goes on with a lexeme. -/
def Apart (rest : List Char) : Prop :=
  ∀ d ∈ rest.head?, d.isDigit = false ∧ d.isAlpha = false ∧ d ≠ '='

theorem apart_nil : Apart [] := fun d hd => by cases hd

theorem apart_cons (h : d.isDigit = false ∧ d.isAlpha = false ∧ d ≠ '=') : Apart (d :: rest) := by
  rintro d ⟨⟩
  exact h

theorem ofPair?_of_ne (h : d ≠ '=') : Kind.ofPair? c d = none := by
  unfold Kind.ofPair?
  split
  · exact absurd rfl h
  · exact absurd rfl h
  · rfl

/-- Every lexeme ends before a text that stands apart. -/
theorem Apart.endsBefore (h : Apart rest) (l : Lexeme) : l.EndsBefore rest := by
  intro d hd c _
  obtain ⟨hdigit, halpha, hd'⟩ := h d hd
  exact ⟨fun _ => hdigit, fun _ => halpha, fun _ => ofPair?_of_ne hd'⟩

/-- A scanner reads a lexeme behind a gap. -/
theorem Scanner.read?_of_spelled (hgap : ∀ c ∈ gap, isGap c = true) (hl : l.Spelled)
    (hcs : l.EndsBefore cs) (start : Nat) :
    Scanner.read? ⟨start, gap ++ (l.chars ++ cs)⟩ =
      some (⟨l.kind, String.ofList l.chars, .between (start + Text.width gap)
        (start + Text.width gap + Text.width l.chars)⟩,
        ⟨start + Text.width gap + Text.width l.chars, cs⟩) := by
  obtain ⟨c, rest, hc, hbegins, -⟩ := hl.begins
  have hhead : ∀ d ∈ (l.chars ++ cs).head?, isGap d = false := by
    rw [hc]
    rintro d ⟨⟩
    exact hbegins
  obtain ⟨htake, hdrop⟩ := takeWhile_run hgap hhead
  have hskip : Scanner.skipGap ⟨start, gap ++ (l.chars ++ cs)⟩ =
      ⟨start + Text.width gap, l.chars ++ cs⟩ := by
    rw [Scanner.skipGap, htake, hdrop]
  rw [Scanner.read?, hskip, first?_of_spelled hl hcs]
  rfl

/-- A scanner is at the end where no lexeme begins behind the gap. -/
theorem Scanner.read?_eq_none {s : Scanner} (h : first? (s.rest.dropWhile isGap) = none) :
    s.read? = none := by
  rw [read?, skipGap, h]
  rfl

namespace Layout

theorem empty : Layout rest [] rest := .nil (List.forall_mem_nil _)

/-- A gap in front makes no difference. -/
theorem behindGap (hgap : ∀ c ∈ gap, isGap c = true) (h : Layout cs ls rest) :
    Layout (gap ++ cs) ls rest := by
  cases h with
  | @nil gap' _ hgap' =>
    rw [← List.append_assoc]
    exact .nil (List.forall_mem_append.2 ⟨hgap, hgap'⟩)
  | @cons gap' _ _ _ _ hgap' hl hcs h =>
    rw [← List.append_assoc]
    exact .cons (List.forall_mem_append.2 ⟨hgap, hgap'⟩) hl hcs h

theorem append (h : Layout cs ls ds) (hd : Layout ds ms rest) : Layout cs (ls ++ ms) rest := by
  induction h with
  | nil hgap => exact hd.behindGap hgap
  | cons hgap hl hcs _ ih => exact .cons hgap hl hcs (ih hd)

/-- A lexeme without a gap in front. -/
theorem lexeme (h : Layout cs ls rest) (hl : l.Spelled) (hcs : l.EndsBefore cs) :
    Layout (l.chars ++ cs) (l :: ls) rest :=
  .cons (List.forall_mem_nil _) hl hcs h

theorem space (h : Layout cs ls rest) : Layout (' ' :: cs) ls rest :=
  h.behindGap (List.forall_mem_singleton.2 rfl)

/-- A mark that no mark of two characters begins with. -/
theorem mark (h : Kind.ofMark? c = some k)
    (hc : c.isDigit = false ∧ c.isAlpha = false ∧ c ≠ '=' ∧ c ≠ '!') (hcs : Layout cs ls rest) :
    Layout (c :: cs) (⟨k, [c]⟩ :: ls) rest := by
  have hpair : ∀ d, Kind.ofPair? c d = none := by
    intro d
    unfold Kind.ofPair?
    split
    · exact absurd rfl hc.2.2.1
    · exact absurd rfl hc.2.2.2
    · rfl
  exact hcs.lexeme (.mark h) (endsBefore_mark ⟨hc.1, hc.2.1⟩ fun d _ => hpair d)

/-- A lexeme with a space behind it. -/
theorem spaced (h : Layout cs ls rest) (hl : l.Spelled) :
    Layout (l.chars ++ ' ' :: cs) (l :: ls) rest := by
  have happart : Apart (' ' :: cs) := apart_cons (by decide)
  exact h.space.lexeme hl (happart.endsBefore l)

/-- **A scanner yields the lexemes that its text is laid out from.** -/
theorem drain_lexemes {s : Scanner} (h : Layout s.rest ls rest)
    (hrest : first? (rest.dropWhile isGap) = none) : s.drain.ahead.map Token.lexeme = ls := by
  obtain ⟨start, text⟩ := s
  simp only at h
  induction h generalizing start with
  | nil hgap =>
    rw [← List.dropWhile_append_of_pos hgap] at hrest
    rw [Scanner.drain_of_read?_none (Scanner.read?_eq_none hrest)]
    rfl
  | cons hgap hl hcs _ ih =>
    rw [Scanner.drain_of_read?_some (Scanner.read?_of_spelled hgap hl hcs start)]
    rw [TokenStream.cons, List.map_cons, ih hrest, Token.lexeme, String.toList_ofList]

end Layout

end Monkey

import Monkey.Text.Width
import Monkey.Token.Lexeme
import Monkey.Token.Stream

/-!
# Scanning

A scanner stands at an offset of a text and holds what is left of it. It yields the token that comes
next (`next`) and, run to the end, the stream of all tokens (`drain`). Main statement: every token
that is read takes characters (`read?_rest_length`), so a scanner comes to the end.
-/

namespace Monkey

/-- A place in a text: its offset, and the text from there on. -/
structure Scanner where
  offset : Nat
  rest : List Char
deriving DecidableEq

namespace Scanner

/-- The scanner at the start of a text. -/
def ofString (source : String) : Scanner := ⟨0, source.toList⟩

/-- Past the gap in front of the next lexeme. -/
def skipGap (s : Scanner) : Scanner :=
  ⟨s.offset + Text.width (s.rest.takeWhile Lexeme.isGap), s.rest.dropWhile Lexeme.isGap⟩

/-- The next token and the scanner behind it, unless the text is at its end. -/
def read? (s : Scanner) : Option (Token × Scanner) :=
  let start := s.skipGap.offset
  (Lexeme.first? s.skipGap.rest).map fun (l, rest) =>
    let stop := start + Text.width l.chars
    (⟨l.kind, String.ofList l.chars, Span.between start stop⟩, ⟨stop, rest⟩)

/-- The next token and the scanner behind it; at the end of the text that is the token of the end,
again and again. -/
def next (s : Scanner) : Token × Scanner :=
  s.read?.getD (Token.ending s.skipGap.offset, s.skipGap)

/-- Every token takes characters. -/
theorem read?_rest_length {s r : Scanner} {t : Token} (h : s.read? = some (t, r)) :
    r.rest.length < s.rest.length := by
  obtain ⟨⟨l, rest⟩, hl, he⟩ := Option.map_eq_some_iff.1 h
  obtain ⟨rfl, rfl⟩ := Prod.mk.inj he
  exact Nat.lt_of_lt_of_le (Lexeme.length_lt_of_first? hl)
    (List.dropWhile_sublist Lexeme.isGap).length_le

/-- The stream of all tokens from here on. -/
def drain (s : Scanner) : TokenStream :=
  match _h : s.read? with
  | none => ⟨[], s.skipGap.offset⟩
  | some (t, r) => r.drain.cons t
termination_by s.rest.length
decreasing_by exact read?_rest_length _h

theorem drain_of_read?_none {s : Scanner} (h : s.read? = none) :
    s.drain = ⟨[], s.skipGap.offset⟩ := by
  rw [drain]
  split
  · rfl
  · next h' => simp [h] at h'

theorem drain_of_read?_some {s r : Scanner} {t : Token} (h : s.read? = some (t, r)) :
    s.drain = r.drain.cons t := by
  rw [drain]
  split
  · next h' => simp [h] at h'
  · next h' =>
    obtain ⟨rfl, rfl⟩ := Prod.mk.inj (Option.some.inj (h.symm.trans h'))
    rfl

end Scanner

/-- The tokens of a text, the end of the text included. -/
def tokenize (source : String) : List Token := (Scanner.ofString source).drain.toList

end Monkey

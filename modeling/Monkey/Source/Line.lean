import Monkey.Text.Width

/-!
# Lines

The line of a text in which a byte offset lies. The text is cut behind each newline (`pieces`), and
the pieces are searched for the one that holds the offset (`locate?`). No piece holds the offset just
past the text: it belongs to what stands behind the last newline (`last`), which is the last piece,
or an empty line that is no piece.
-/

namespace Monkey

/-- A line of a text and a place in it: the line's number, counted from one, its text, its newline
included, and the number of bytes before the place. -/
structure Line where
  number : Nat
  text : List Char
  column : Nat
deriving DecidableEq

namespace Line

/-- The pieces of a text, each with the newline that ends it. Only the last one may have none, and
none is empty. -/
def pieces : List Char → List (List Char)
  | [] => []
  | c :: cs =>
    if c = '\n' then [c] :: pieces cs
    else
      match pieces cs with
      | [] => [[c]]
      | line :: lines => (c :: line) :: lines

/-- The piece that holds an offset, out of pieces of which the first has the given number and begins
at the given offset. -/
def locate? (number start offset : Nat) : List (List Char) → Option Line
  | [] => none
  | line :: lines =>
    if start ≤ offset ∧ offset < start + Text.width line then some ⟨number, line, offset - start⟩
    else locate? (number + 1) (start + Text.width line) offset lines

/-- What stands behind the last newline of a text, if it has one. -/
def behindNewline? : List Char → Option (List Char)
  | [] => none
  | c :: cs => behindNewline? cs <|> if c = '\n' then some cs else none

/-- The line at the end of a text. The number is one more than that of its last piece. -/
def last (number : Nat) (cs : List Char) : Line :=
  match behindNewline? cs with
  | none => ⟨1, cs, Text.width cs⟩
  | some [] => ⟨number, [], 0⟩
  | some line => ⟨number - 1, line, Text.width line⟩

/-- The line of a text that holds an offset, unless the offset lies past the end. -/
def find? (source : String) (offset : Nat) : Option Line :=
  let lines := pieces source.toList
  if source.utf8ByteSize < offset then none
  else some ((locate? 1 0 offset lines).getD (last (1 + lines.length) source.toList))

/-- Cutting loses nothing. -/
theorem flatten_pieces (cs : List Char) : (pieces cs).flatten = cs := by
  induction cs with
  | nil => rfl
  | cons c cs ih =>
    rw [pieces]
    split
    · simp [ih]
    · split
      · next h => rw [h] at ih; simp at ih; simp [← ih]
      · next line lines h => rw [h] at ih; simpa using ih

end Line

end Monkey

import Monkey.Token.Scanner

/-!
# Cursors

A cursor is a byte offset in a source text, and it reads the text byte by byte: it tries one way to
read a token after the other (`Cursor.ways`), each of which looks at some bytes and takes them, or
does not apply. Unlike a scanner a cursor can be moved to any offset, also to one inside a character.
Bytes that begin or end there are no text, so they cannot be taken (`Cursor.take`).
-/

namespace Monkey

/-- A byte offset in a source text. -/
structure Cursor where
  source : String
  offset : Nat
deriving DecidableEq

namespace Cursor

/-- The cursor at the start of a text. -/
def ofString (source : String) : Cursor := ⟨source, 0⟩

/-- The cursor some bytes further on, but not past the end of the text. -/
def advance (c : Cursor) (bytes : Nat) : Cursor :=
  { c with offset := min (c.offset + bytes) c.source.utf8ByteSize }

/-- Whether the cursor has come to the end of the text. -/
def atEnd (c : Cursor) : Bool := c.source.utf8ByteSize ≤ c.offset

/-- The bytes from the cursor on. -/
def remainder (c : Cursor) : List UInt8 := c.source.toUTF8.data.toList.drop c.offset

/-- The byte some places after the cursor; past the end of the text it is zero. -/
def byteAfter (c : Cursor) (places : Nat) : UInt8 :=
  c.source.toUTF8.data.getD (c.offset + places) 0

/-- The scanner at the cursor, if a character begins there. -/
def scanner? (c : Cursor) : Option Scanner :=
  (Text.dropWidth? c.offset c.source.toList).map fun rest => ⟨c.offset, rest⟩

/-- The byte some places after the cursor as a character, which it is by itself if it is below
128. -/
def charAfter (c : Cursor) (places : Nat) : Char := Char.ofUInt8 (c.byteAfter places)

/-- How many bytes from the cursor on belong to a class of characters. -/
def runLength (c : Cursor) (p : Char → Bool) : Nat :=
  (c.remainder.takeWhile fun byte => p (Char.ofUInt8 byte)).length

/-- The cursor past the gap in front of the next lexeme. -/
def skipGap (c : Cursor) : Cursor := c.advance (c.runLength Lexeme.isGap)

/-- Takes some bytes as a token, whose kind may hang on its text. Where they are no text there is no
token, and the cursor stays. -/
def take (c : Cursor) (kind : String → Kind) (bytes : Nat) : Option Token × Cursor :=
  match Text.slice? c.offset bytes c.source.toList with
  | none => (none, c)
  | some chars =>
    let text := String.ofList chars
    (some ⟨kind text, text, Span.between c.offset (c.offset + bytes)⟩, c.advance bytes)

/-- At a zero byte or the end of the text there is the token of the end, and the cursor stays. -/
def ending? (c : Cursor) : Option (Option Token × Cursor) :=
  if c.byteAfter 0 = 0 then some (some (Token.ending c.offset), c) else none

/-- Takes a mark of two characters, if one stands at the cursor. -/
def pair? (c : Cursor) : Option (Option Token × Cursor) :=
  (Kind.ofPair? (c.charAfter 0) (c.charAfter 1)).map fun k => c.take (fun _ => k) 2

/-- Takes a mark of one character. -/
def mark? (c : Cursor) : Option (Option Token × Cursor) :=
  (Kind.ofMark? (c.charAfter 0)).map fun k => c.take (fun _ => k) 1

/-- Takes a run of characters of a class. -/
def run? (p : Char → Bool) (kind : String → Kind) (c : Cursor) : Option (Option Token × Cursor) :=
  if c.runLength p = 0 then none else some (c.take kind (c.runLength p))

/-- The ways to read a token. The first one that applies is taken. -/
def ways : List (Cursor → Option (Option Token × Cursor)) :=
  [ending?, pair?, mark?, run? Char.isDigit fun _ => .integer, run? Char.isAlpha Kind.ofWord]

/-- Takes one whole character, whatever it is. -/
def takeStray (c : Cursor) : Option Token × Cursor :=
  match Text.dropWidth? c.offset c.source.toList with
  | none => (none, c)
  | some rest => c.take (fun _ => .illegal) ((rest.head?.map Char.utf8Size).getD 1)

/-- Takes the token that stands at the cursor, with no gap in front of it. -/
def takeToken (c : Cursor) : Option Token × Cursor := (ways.findSome? (· c)).getD c.takeStray

/-- The next token, unless the bytes at the cursor are no text, and the cursor after that. -/
def pull (c : Cursor) : Option Token × Cursor := c.skipGap.takeToken

/-- The next token and the cursor behind it. -/
def next? (c : Cursor) : Option (Token × Cursor) :=
  match c.pull with
  | (none, _) => none
  | (some token, behind) => some (token, behind)

@[simp] theorem advance_source (c : Cursor) (n : Nat) : (c.advance n).source = c.source := rfl

/-- A move never leaves the text. -/
theorem advance_offset_le (c : Cursor) (n : Nat) :
    (c.advance n).offset ≤ c.source.utf8ByteSize := Nat.min_le_right _ _

end Cursor

end Monkey

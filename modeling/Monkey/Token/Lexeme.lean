import Monkey.Token.Kind

/-!
# Lexemes

The lexeme that a text begins with: a mark of two characters before a mark of one, a whole run of
digits, a whole run of letters, and otherwise one character that has no place in the language. A
text that is empty or begins with the character zero has none. Main statements: what is read and
what is left make up the text (`append_of_first?`), and something is always read
(`chars_ne_nil_of_first?`).
-/

namespace Monkey

/-- A kind and the characters that spell it. -/
structure Lexeme where
  kind : Kind
  chars : List Char
deriving DecidableEq

namespace Lexeme

/-- Whether a character may stand between lexemes. -/
def isGap (c : Char) : Bool := c == ' ' || c == '\t' || c == '\r' || c == '\n'

/-- A run of letters, which is reserved or an identifier. -/
def word (letters : List Char) : Lexeme := ⟨Kind.ofWord (String.ofList letters), letters⟩

/-- A mark of two characters, if the text begins with one. -/
def pair? (c : Char) : List Char → Option (Lexeme × List Char)
  | [] => none
  | d :: rest => (Kind.ofPair? c d).map fun k => (⟨k, [c, d]⟩, rest)

/-- The longest run of digits or letters at the start of a text, or else its first character. -/
def run (c : Char) (rest : List Char) : Lexeme × List Char :=
  if c.isDigit then (⟨.integer, c :: rest.takeWhile Char.isDigit⟩, rest.dropWhile Char.isDigit)
  else if c.isAlpha then (word (c :: rest.takeWhile Char.isAlpha), rest.dropWhile Char.isAlpha)
  else (⟨.illegal, [c]⟩, rest)

/-- The lexeme that a text begins with, and what is left of the text. -/
def first (c : Char) (rest : List Char) : Lexeme × List Char :=
  match pair? c rest with
  | some read => read
  | none =>
    match Kind.ofMark? c with
    | some k => (⟨k, [c]⟩, rest)
    | none => run c rest

/-- The lexeme that a text begins with, unless the text is at its end. -/
def first? : List Char → Option (Lexeme × List Char)
  | [] => none
  | c :: rest => if c = '\x00' then none else some (first c rest)

/-- The greatest number that a lexeme can name. -/
def numberLimit : Nat := 9223372036854775807

/-- The number that a run of digits names, unless it is too large. -/
def number? (digits : String) : Option Nat :=
  let n := Nat.ofDigitChars 10 digits.toList 0
  if n ≤ numberLimit then some n else none

theorem first_append (c : Char) (rest : List Char) :
    (first c rest).1.chars ++ (first c rest).2 = c :: rest := by
  unfold first
  split
  · next read h =>
    cases rest with
    | nil => simp [pair?] at h
    | cons d rest =>
      obtain ⟨k, _, rfl⟩ := Option.map_eq_some_iff.1 h
      rfl
  · split
    · rfl
    · unfold run word
      split
      · simp
      · split <;> simp

theorem first_chars_ne_nil (c : Char) (rest : List Char) : (first c rest).1.chars ≠ [] := by
  unfold first
  split
  · next read h =>
    cases rest with
    | nil => simp [pair?] at h
    | cons d rest =>
      obtain ⟨k, _, rfl⟩ := Option.map_eq_some_iff.1 h
      simp
  · split
    · simp
    · unfold run word
      split
      · simp
      · split <;> simp

/-- Nothing is lost in reading a lexeme. -/
theorem append_of_first? {cs rest : List Char} {l : Lexeme} (h : first? cs = some (l, rest)) :
    l.chars ++ rest = cs := by
  cases cs with
  | nil => simp [first?] at h
  | cons c cs =>
    rw [first?] at h
    split at h
    · simp at h
    · have := first_append c cs
      rwa [Option.some.inj h] at this

/-- A lexeme is never empty. -/
theorem chars_ne_nil_of_first? {cs rest : List Char} {l : Lexeme} (h : first? cs = some (l, rest)) :
    l.chars ≠ [] := by
  cases cs with
  | nil => simp [first?] at h
  | cons c cs =>
    rw [first?] at h
    split at h
    · simp at h
    · have := first_chars_ne_nil c cs
      rwa [Option.some.inj h] at this

theorem length_lt_of_first? {cs rest : List Char} {l : Lexeme} (h : first? cs = some (l, rest)) :
    rest.length < cs.length := by
  have := List.length_pos_iff.2 (chars_ne_nil_of_first? h)
  rw [← append_of_first? h, List.length_append]
  omega

end Lexeme

end Monkey

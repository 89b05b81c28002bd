/-!
# Kinds of token

The kinds of token, their names, and the three tables of fixed spellings: reserved words, marks of
one character and marks of two.
-/

namespace Monkey

/-- What a token is, its text apart. -/
inductive Kind where
  | eof
  | illegal
  | identifier
  | integer
  | openCurly
  | closeCurly
  | openParen
  | closeParen
  | assign
  | equals
  | bang
  | notEquals
  | less
  | greater
  | semicolon
  | comma
  | plus
  | dash
  | slash
  | star
  | letWord
  | fnWord
  | returnWord
  | ifWord
  | elseWord
  | trueWord
  | falseWord
deriving DecidableEq, Inhabited

namespace Kind

/-- Every kind, in the order of their declaration. -/
def all : List Kind :=
  [eof, illegal, identifier, integer, openCurly, closeCurly, openParen, closeParen, assign, equals,
   bang, notEquals, less, greater, semicolon, comma, plus, dash, slash, star, letWord, fnWord,
   returnWord, ifWord, elseWord, trueWord, falseWord]

/-- The name of a kind in messages and listings. -/
def name : Kind → String
  | eof => "EOF"
  | illegal => "Illegal"
  | identifier => "Identifier"
  | integer => "Integer"
  | openCurly => "OpenCurly"
  | closeCurly => "CloseCurly"
  | openParen => "OpenParen"
  | closeParen => "CloseParen"
  | assign => "Assignment"
  | equals => "Equals"
  | bang => "Not"
  | notEquals => "NotEquals"
  | less => "Less"
  | greater => "Greater"
  | semicolon => "Semicolon"
  | comma => "Comma"
  | plus => "Plus"
  | dash => "Dash"
  | slash => "Slash"
  | star => "Star"
  | letWord => "Let"
  | fnWord => "Fn"
  | returnWord => "Return"
  | ifWord => "If"
  | elseWord => "Else"
  | trueWord => "True"
  | falseWord => "False"

/-- The reserved word that a text spells. -/
def ofReserved? : String → Option Kind
  | "let" => some letWord
  | "fn" => some fnWord
  | "return" => some returnWord
  | "if" => some ifWord
  | "else" => some elseWord
  | "true" => some trueWord
  | "false" => some falseWord
  | _ => none

/-- The kind of a word: an identifier unless it is reserved. -/
def ofWord (word : String) : Kind := (ofReserved? word).getD identifier

/-- The mark of one character that a character spells. -/
def ofMark? : Char → Option Kind
  | ',' => some comma
  | ';' => some semicolon
  | '(' => some openParen
  | ')' => some closeParen
  | '\x7b' => some openCurly
  | '\x7d' => some closeCurly
  | '=' => some assign
  | '+' => some plus
  | '-' => some dash
  | '*' => some star
  | '/' => some slash
  | '!' => some bang
  | '<' => some less
  | '>' => some greater
  | _ => none

/-- The mark of two characters that a pair of characters spells. -/
def ofPair? : Char → Char → Option Kind
  | '=', '=' => some equals
  | '!', '=' => some notEquals
  | _, _ => none

theorem mem_all (k : Kind) : k ∈ all := by cases k <;> decide

theorem name_injective {k l : Kind} (h : k.name = l.name) : k = l := by
  have key : ∀ k ∈ all, ∀ l ∈ all, k.name = l.name → k = l := by decide +kernel
  exact key k (mem_all k) l (mem_all l) h

end Kind

end Monkey

import Monkey.Text.Visible

/-!
# Quoted text

The form in which a text is shown inside a message: between double quotes, and with an escape for
each character that the reader could not see or could take for the end of the quote.
-/

namespace Monkey.Text

/-- The lower-case hexadecimal digits of a number, without leading zeros. -/
def hexDigits (n : Nat) : List Char := Nat.toDigits 16 n

/-- How one character is written between quotes. -/
def escape (c : Char) : List Char :=
  if c = '"' then ['\\', '"']
  else if c = '\\' then ['\\', '\\']
  else if c = '\x00' then ['\\', '0']
  else if c = '\t' then ['\\', 't']
  else if c = '\n' then ['\\', 'n']
  else if c = '\r' then ['\\', 'r']
  else if isVisible c then [c]
  else ['\\', 'u', '\x7b'] ++ hexDigits c.toNat ++ ['\x7d']

/-- A text between double quotes, each character escaped where it has to be. -/
def quoted (s : String) : String := String.ofList ('"' :: s.toList.flatMap escape ++ ['"'])

example : quoted "say \"é\"\t\\\x00" = "\"say \\\"é\\\"\\t\\\\\\0\"" := by decide +kernel

example : quoted "a\u00a0" = "\"a\\u\x7ba0\x7d\"" := by decide +kernel

end Monkey.Text

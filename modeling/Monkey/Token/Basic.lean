import Monkey.Span
import Monkey.Text.Quoted
import Monkey.Token.Kind

/-!
# Tokens

A token is a kind, the text that spells it, and the span where that text stands. The end of a text
is a token too (`Token.ending`): it has no text and takes no room.
-/

namespace Monkey

/-- A kind together with the text that spells it and the place where it stands. -/
structure Token where
  kind : Kind
  text : String
  span : Span
deriving DecidableEq, Inhabited

namespace Token

/-- The token that stands where a text ends. -/
def ending (offset : Nat) : Token := ⟨.eof, "", Span.between offset offset⟩

/-- A token as a listing and a message show it: its kind, then its text between quotes. -/
def display (t : Token) : String := t.kind.name ++ " " ++ Text.quoted t.text

@[simp] theorem ending_kind (offset : Nat) : (ending offset).kind = .eof := rfl

end Token

end Monkey

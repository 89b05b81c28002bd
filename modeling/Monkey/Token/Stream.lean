import Monkey.Token.Basic

/-!
# Token streams

A stream of tokens never runs out: behind the tokens that are still to come stands the end of the
text, as often as one asks for it. `get` reads a stream by index, and `tail` is the shift of that
view (`get_tail`).
-/

namespace Monkey

/-- The tokens to come, then the end of the text at an offset, over and over. -/
structure TokenStream where
  ahead : List Token
  stop : Nat
deriving DecidableEq, Inhabited

namespace TokenStream

/-- The token that ends the stream. -/
def final (s : TokenStream) : Token := Token.ending s.stop

/-- The token at an index. -/
def get (s : TokenStream) (i : Nat) : Token := s.ahead.getD i s.final

/-- The next token. -/
def head (s : TokenStream) : Token := s.ahead.headD s.final

/-- The stream behind the next token. -/
def tail (s : TokenStream) : TokenStream := { s with ahead := s.ahead.tail }

/-- The stream with one more token in front. -/
def cons (t : Token) (s : TokenStream) : TokenStream := { s with ahead := t :: s.ahead }

/-- All tokens, with the end of the text once. -/
def toList (s : TokenStream) : List Token := s.ahead ++ [s.final]

theorem get_zero (s : TokenStream) : s.get 0 = s.head := by
  simp [get, head, List.getD, List.headD_eq_head?_getD, List.head?_eq_getElem?]

theorem get_tail (s : TokenStream) (i : Nat) : s.tail.get i = s.get (i + 1) := by
  simp [get, tail, final, List.getD]

end TokenStream

end Monkey

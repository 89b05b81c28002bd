import Monkey.Token.Basic

/-!
# Diagnostics

What can be wrong with a text that is read as a program. A fault never stops the reading: it is
noted, together with the place where it was met, and the reading goes on.
-/

namespace Monkey

/-- What is wrong. -/
inductive Cause where
  /-- No expression begins with this token. -/
  | noOperand (token : Token)
  /-- Another kind of token has to stand here. -/
  | unexpected (token : Token) (expected : Kind)
  /-- The number is too large. -/
  | overflow (token : Token)
deriving DecidableEq

/-- A fault and the byte offset where it was met. -/
structure Diagnostic where
  cause : Cause
  position : Nat
deriving DecidableEq

namespace Cause

/-- The token at fault. -/
def token : Cause → Token
  | noOperand token => token
  | unexpected token _ => token
  | overflow token => token

/-- The kind that should have stood there, where that is the fault. -/
def expected? : Cause → Option Kind
  | unexpected _ expected => some expected
  | _ => none

/-- The name that reports give to a cause. -/
def name : Cause → String
  | noOperand _ => "NoPrefixHandler"
  | unexpected _ _ => "UnexpectedToken"
  | overflow _ => "NumberParseError"

/-- What is wrong, in a sentence. -/
def message : Cause → String
  | noOperand token => "Unable to consume prefix: " ++ token.display
  | unexpected token expected =>
    "Could not properly consume token: " ++ token.display ++ " expected: " ++ expected.name
  | overflow token => "Could not parse " ++ Text.quoted token.text ++ " as integer"

/-- Advice for the writer of the text, where the message does not say it all. -/
def tip? : Cause → Option String
  | noOperand token =>
    if token.kind = .illegal then some ("Unrecognised character `" ++ token.text ++ "`")
    else some ("`" ++ token.text ++ "` cannot start an expression")
  | unexpected token expected =>
    if token.kind = .eof then some ("Input ended while expecting " ++ expected.name) else none
  | overflow token =>
    some ("Invalid number: `" ++ token.text ++ "`, is it above the integer limit?")

end Cause

end Monkey

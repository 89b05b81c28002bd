import Monkey.Diagnostic.Basic
import Monkey.Token.Stream

/-!
# Reading tokens

The state of a reader is the token it took last, the tokens to come, and the faults noted so far.
Its steps are few: look at the current token, take it, note a fault. A reader (`Parse`) strings such
steps together; it has no answer only if it would go on for ever. `bind_eq_some_iff` opens a reader
made of two, and each step has its equation.
-/

namespace Monkey.Descent

/-- Where a reader stands: the token taken last, the tokens to come, and the faults noted so far, the
latest first. -/
structure State where
  last : Option Token
  stream : TokenStream
  log : List Diagnostic
deriving DecidableEq

namespace State

/-- The state before any token is taken. -/
def start (stream : TokenStream) : State := ⟨none, stream, []⟩

variable (s : State)

/-- The token to be taken next. -/
def current : Token := s.stream.head

/-- The kind of the current token. -/
def kind : Kind := s.current.kind

/-- How many tokens are to come, the end of the text apart. -/
def left : Nat := s.stream.ahead.length

/-- Where the token taken last ends. -/
def lastStop : Nat := (s.last.map (·.span.stop)).getD 0

/-- The span from an offset to the end of what was taken, which is empty if the offset lies behind
that end. -/
def spanFrom (start : Nat) : Span := ⟨start, max s.lastStop start⟩

/-- The state after the current token is taken. The end of the text is never taken. -/
def advance : State :=
  match s.stream.ahead with
  | [] => s
  | token :: _ => { s with last := some token, stream := s.stream.tail }

/-- The state after a fault is noted at an offset. -/
def note (cause : Cause) (position : Nat) : State := { s with log := ⟨cause, position⟩ :: s.log }

/-- The state after a fault is noted at the current token. -/
def noteHere (cause : Cause) : State := s.note cause s.current.span.start

/-- The faults in the order in which they were noted. -/
def diagnostics : List Diagnostic := s.log.reverse

@[simp] theorem left_note (cause : Cause) (position : Nat) : (s.note cause position).left = s.left :=
  rfl

@[simp] theorem left_noteHere (cause : Cause) : (s.noteHere cause).left = s.left := rfl

@[simp] theorem left_advance : s.advance.left = s.left - 1 := by
  unfold advance left
  split <;> simp_all [TokenStream.tail]

/-- At the end of the text the current token says so. -/
theorem kind_of_left {s : State} (h : s.left = 0) : s.kind = .eof := by
  have : s.stream.ahead = [] := List.eq_nil_of_length_eq_zero h
  simp [kind, current, TokenStream.head, this, TokenStream.final]

end State

/-- A reader: from a state to what was read and the state after it. -/
abbrev Parse := StateT State Option

/-- A reader made of two answers if both do. -/
theorem bind_eq_some_iff {α β : Type} {p : Parse α} {f : α → Parse β} {s : State} {r : β × State} :
    (p >>= f) s = some r ↔ ∃ a s', p s = some (a, s') ∧ f a s' = some r := by
  cases h : p s with
  | none => simp [bind, StateT.bind, h]
  | some q =>
    obtain ⟨a, s'⟩ := q
    simp [bind, StateT.bind, h, and_assoc]

@[simp] theorem pure_apply {α : Type} (a : α) (s : State) : (pure a : Parse α) s = some (a, s) := rfl

/-- The current token. -/
def current : Parse Token := fun s => some (s.current, s)

/-- Takes the current token. -/
def take : Parse Token := fun s => some (s.current, s.advance)

/-- Takes the current token if it is of some kind, and says whether it did. -/
def takeIf (k : Kind) : Parse Bool := fun s =>
  if s.kind = k then some (true, s.advance) else some (false, s)

/-- Takes the current token, and notes a fault if it is not of the kind that should stand there. -/
def expect (k : Kind) : Parse Token := fun s =>
  if s.kind = k then some (s.current, s.advance)
  else some (s.current, (s.noteHere (.unexpected s.current k)).advance)

/-- Notes a fault at an offset. -/
def note (cause : Cause) (position : Nat) : Parse Unit := fun s => some ((), s.note cause position)

/-- The span from an offset to the end of what was taken. -/
def spanFrom (start : Nat) : Parse Span := fun s => some (s.spanFrom start, s)

/-- Reads items up to a token of a kind that stops the list. An item may come to nothing, but it has
to take a token. -/
def collect {α : Type} (stops : Kind → Bool) (item : Parse (Option α)) : Parse (List α) := fun s =>
  if stops s.kind then some ([], s)
  else
    match item s with
    | none => none
    | some (x, s') =>
      if _h : s'.left < s.left then
        (collect stops item s').map fun (xs, s'') => (x.toList ++ xs, s'')
      else none
termination_by s => s.left

end Monkey.Descent

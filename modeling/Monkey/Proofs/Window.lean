import Monkey.Proofs.Moves
import Monkey.Proofs.Tokens

/-!
# The window on a text

A text can be read without the stream of all its tokens, by a window of two tokens: the current one
and the one behind it, which is asked for ahead of time. At the end of the text a scanner gives the
same token whenever it is asked (`Scanner.drain_next`), and the window stays where it is. So a
window that is moved by some tokens shows what a reader sees that took them (`Window.Shows.takes`).
Which token that is can be told from the list of all tokens, the last of them over and over
(`tokenAt`).
-/

namespace Monkey

open Descent

namespace Scanner

variable (s : Scanner)

/-- Behind a gap there is none. -/
@[simp] theorem skipGap_skipGap : s.skipGap.skipGap = s.skipGap := by
  have hnone : (s.rest.dropWhile Lexeme.isGap).takeWhile Lexeme.isGap = [] := by
    induction s.rest with
    | nil => rfl
    | cons c cs ih =>
      rw [List.dropWhile_cons]
      split
      · exact ih
      · next h => rw [List.takeWhile_cons, if_neg h]
  have hall := List.takeWhile_append_dropWhile (p := Lexeme.isGap)
    (l := s.rest.dropWhile Lexeme.isGap)
  rw [hnone, List.nil_append] at hall
  rw [skipGap, skipGap, hnone, hall]
  rfl

/-- A gap in front makes no difference to what is read. -/
theorem read?_skipGap : s.skipGap.read? = s.read? := by
  rw [read?, skipGap_skipGap, ← read?]

/-- **The next token heads the stream**, and the scanner behind it has what is behind. At the end of
the text that is the end once more. -/
theorem drain_next : s.next.1 = s.drain.head ∧ s.next.2.drain = s.drain.tail := by
  cases h : s.read? with
  | none =>
    rw [next, h, drain_of_read?_none h]
    refine ⟨rfl, ?_⟩
    rw [Option.getD_none, drain_of_read?_none (s.read?_skipGap.trans h), skipGap_skipGap]
    rfl
  | some read =>
    rw [next, h, drain_of_read?_some h]
    exact ⟨rfl, rfl⟩

end Scanner

/-- A stream is the list of its tokens, of which the last one stands over and over. -/
theorem TokenStream.getD_toList (u : TokenStream) (i : Nat) :
    u.toList.getD i u.final = u.get i := by
  rw [toList, get, List.getD_eq_getElem?_getD, List.getD_eq_getElem?_getD, List.getElem?_append]
  split
  · rfl
  · next h =>
    rw [List.getElem?_eq_none (Nat.le_of_not_lt h), Option.getD_none]
    cases i - u.ahead.length <;> rfl

/-- The token of a text at an index. Behind all tokens the last one stands over and over. -/
def tokenAt (source : String) (i : Nat) : Token :=
  (tokenize source).getD i ((tokenize source).getLastD default)

theorem tokenAt_eq_get (source : String) (i : Nat) :
    tokenAt source i = (Scanner.ofString source).drain.get i := by
  rw [tokenAt, ← TokenStream.getD_toList, tokenize, TokenStream.toList, List.getLastD_concat]

section

variable {source : String} {s : State} {ts : List Token}
  (h : Takes ts (.start (Scanner.ofString source).drain) s)

include h

theorem tokenAt_of_lt {i : Nat} (hi : i < ts.length) : tokenAt source i = ts[i] := by
  rw [tokenAt_eq_get]
  exact h.get_of_lt hi

theorem tokenAt_add (i : Nat) : tokenAt source (ts.length + i) = s.stream.get i := by
  rw [tokenAt_eq_get]
  exact h.get i

/-- Before the first token is taken nothing has ended yet. -/
theorem lastStop_eq_tokenAt :
    s.lastStop = if ts.length = 0 then 0 else (tokenAt source (ts.length - 1)).span.stop := by
  rw [h.lastStop_of_start, stopOf, List.getLast?_eq_getElem?]
  split
  · next h0 => rw [List.eq_nil_of_length_eq_zero h0]; rfl
  · next h0 =>
    have hlast : ts.length - 1 < ts.length := by omega
    rw [tokenAt_of_lt h hlast, List.getElem?_eq_getElem hlast]
    rfl

/-- What is taken from a text is no end of it. -/
theorem kind_ne_eof_of_takes {t : Token} (ht : t ∈ ts) : t.kind ≠ .eof := by
  have hahead : (Scanner.ofString source).drain.ahead = ts ++ s.stream.ahead := h.ahead
  exact Scanner.kind_ne_eof_of_mem_drain (hahead ▸ List.mem_append_left _ ht)

end

/-- Two tokens of a text, the scanner behind them, and where the token in front of them ends. -/
structure Window where
  current : Token
  next : Token
  scanner : Scanner
  lastStop : Nat

namespace Window

/-- The window on the first two tokens from a scanner on. -/
def ofScanner (s : Scanner) : Window := ⟨s.next.1, s.next.2.next.1, s.next.2.next.2, 0⟩

/-- The window one token further on, unless it shows the end of the text. -/
def advance (w : Window) : Window :=
  if w.current.kind = .eof then w
  else ⟨w.next, w.scanner.next.1, w.scanner.next.2, w.current.span.stop⟩

/-- The window so many tokens further on. -/
def advanceBy (w : Window) : Nat → Window
  | 0 => w
  | n + 1 => w.advance.advanceBy n

/-- The window shows what a reader sees from a state. -/
structure Shows (w : Window) (s : State) : Prop where
  current : w.current = s.current
  next : w.next = s.stream.tail.head
  behind : w.scanner.drain = s.stream.tail.tail
  lastStop : w.lastStop = s.lastStop

theorem ofScanner_shows (s : Scanner) : (ofScanner s).Shows (.start s.drain) := by
  obtain ⟨hcurrent, hbehind⟩ := s.drain_next
  obtain ⟨hnext, hlast⟩ := s.next.2.drain_next
  rw [hbehind] at hnext hlast
  exact ⟨hcurrent, hnext, hlast, rfl⟩

theorem Shows.advance {w : Window} {s : State} (h : w.Shows s) (hk : s.kind ≠ .eof) :
    w.advance.Shows s.advance := by
  obtain ⟨hnext, hbehind⟩ := w.scanner.drain_next
  rw [h.behind] at hnext hbehind
  have hw : w.current.kind ≠ .eof := h.current ▸ hk
  rw [Window.advance, if_neg hw]
  have hstream := s.stream_advance
  have hstop : s.advance.lastStop = s.current.span.stop := by
    rw [State.advance_of_cons (State.ahead_of_kind hk)]
    rfl
  refine ⟨?_, ?_, ?_, ?_⟩
  · rw [h.next, State.current, hstream]
  · rw [hnext, hstream]
  · rw [hbehind, hstream]
  · rw [hstop, h.current]

theorem Shows.of_withLog {w : Window} {s : State} {log : List Diagnostic}
    (h : w.Shows (s.withLog log)) : w.Shows s :=
  ⟨h.current, h.next, h.behind, h.lastStop⟩

/-- **The window goes along** with a reader that takes tokens. -/
theorem Shows.takes {w : Window} {s s' : State} {ts : List Token} (h : w.Shows s)
    (ht : Takes ts s s') (hk : ∀ t ∈ ts, t.kind ≠ .eof) : (w.advanceBy ts.length).Shows s' := by
  induction ht generalizing w with
  | nil => exact h
  | cons ha _ ih =>
    obtain ⟨hkind, hrest⟩ := List.forall_mem_cons.1 hk
    exact ih (h.advance (State.kind_of_cons ha ▸ hkind)) hrest

end Window

end Monkey

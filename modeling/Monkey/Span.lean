/-!
# Spans

A span is a stretch of source text given by two byte offsets. Offsets that come from a text are
clamped to 32 bits (`Span.between`), so a position never needs more.
-/

namespace Monkey

/-- A stretch of source text: the offset of its first byte, and the offset just past its last. -/
structure Span where
  start : Nat
  stop : Nat
deriving DecidableEq, Inhabited

namespace Span

/-- The greatest offset that a span can name. -/
def limit : Nat := 4294967295

/-- The span from one offset to another, either clamped to the greatest offset there is. -/
def between (start stop : Nat) : Span := ⟨min start limit, min stop limit⟩

/-- The number of bytes from the start to the stop. -/
def length (s : Span) : Nat := s.stop - s.start

def isEmpty (s : Span) : Bool := s.start == s.stop

theorem between_of_le {a b : Nat} (ha : a ≤ limit) (hb : b ≤ limit) : between a b = ⟨a, b⟩ := by
  simp [between, Nat.min_eq_left ha, Nat.min_eq_left hb]

end Span

end Monkey

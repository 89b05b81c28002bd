import Monkey.Proofs.Nodes
import Monkey.Proofs.Positions

/-!
# Spans in a row

Spans that lie one behind the other between two offsets, each of them reaching from the start of a
token to the stop of one (`Row`). Rows that meet at an offset make up one row (`Row.append`), and in
a row all spans are apart (`Row.pairwise`). A node nests if the spans of its parts lie in a row
between its own start and stop (`Node.Nests`). What is read between two offsets is a row of spans
with nodes that nest (`Stretch`), and its rules say how a tree is put together:
stretches side by side are one (`Stretch.append`), and a node may be put around one (`Stretch.node`).
-/

namespace Monkey

namespace Span

/-- The span does not run backwards, nor past an offset. -/
structure Fits (p : Span) (stop : Nat) : Prop where
  start_le : p.start ≤ p.stop
  stop_le : p.stop ≤ stop

/-- The span is not empty, starts where a token starts and stops where one stops. -/
structure Aligned (p : Span) (ts : List Token) : Prop where
  solid : p.start < p.stop
  start : ∃ t ∈ ts, t.span.start = p.start
  stop : ∃ t ∈ ts, t.span.stop = p.stop

end Span

/-- Aligned spans that lie one behind the other between two offsets. -/
structure Row (ts : List Token) (lo hi : Nat) (ps : List Span) : Prop where
  le : lo ≤ hi
  inside : ∀ p ∈ ps, lo ≤ p.start ∧ p.stop ≤ hi
  apart : ps.Pairwise fun p q => p.stop ≤ q.start
  aligned : ∀ p ∈ ps, p.Aligned ts

variable {ts : List Token} {lo lo' mid hi hi' : Nat} {p : Span} {ps qs : List Span}

theorem Span.Fits.mono {stop stop' : Nat} (h : p.Fits stop) (hle : stop ≤ stop') : p.Fits stop' :=
  ⟨h.start_le, Nat.le_trans h.stop_le hle⟩

namespace Row

theorem nil (h : lo ≤ hi) : Row ts lo hi [] :=
  ⟨h, List.forall_mem_nil _, .nil, List.forall_mem_nil _⟩

theorem lower (h : Row ts lo hi ps) (hlo : lo' ≤ lo) : Row ts lo' hi ps := by
  refine ⟨Nat.le_trans hlo h.le, ?_, h.apart, h.aligned⟩
  intro p hp
  obtain ⟨hstart, hstop⟩ := h.inside p hp
  exact ⟨Nat.le_trans hlo hstart, hstop⟩

theorem upper (h : Row ts lo hi ps) (hhi : hi ≤ hi') : Row ts lo hi' ps := by
  refine ⟨Nat.le_trans h.le hhi, ?_, h.apart, h.aligned⟩
  intro p hp
  obtain ⟨hstart, hstop⟩ := h.inside p hp
  exact ⟨hstart, Nat.le_trans hstop hhi⟩

/-- **Rows that meet are one.** -/
theorem append (h : Row ts lo mid ps) (h' : Row ts mid hi qs) : Row ts lo hi (ps ++ qs) := by
  have hfront := (h.upper h'.le).inside
  have hbehind := (h'.lower h.le).inside
  refine ⟨Nat.le_trans h.le h'.le, List.forall_mem_append.2 ⟨hfront, hbehind⟩, ?_,
    List.forall_mem_append.2 ⟨h.aligned, h'.aligned⟩⟩
  refine List.pairwise_append.2 ⟨h.apart, h'.apart, ?_⟩
  intro p hp q hq
  exact Nat.le_trans (h.inside p hp).2 (h'.inside q hq).1

theorem single (hp : p.Aligned ts) : Row ts p.start p.stop [p] :=
  ⟨Nat.le_of_lt hp.solid, List.forall_mem_singleton.2 ⟨Nat.le_refl _, Nat.le_refl _⟩,
    List.pairwise_singleton _ _, List.forall_mem_singleton.2 hp⟩

/-- A row of one span reaches around it. -/
theorem around (h : Row ts lo hi [p]) : lo ≤ p.start ∧ p.Aligned ts ∧ p.stop ≤ hi := by
  have hmem : p ∈ [p] := List.mem_cons_self
  obtain ⟨hlo, hhi⟩ := h.inside p hmem
  exact ⟨hlo, h.aligned p hmem, hhi⟩

end Row

namespace Node

/-- The span of a node; a hole has none. -/
def span? : Node → Option Span
  | .expr e => e.span?
  | .stmt s => some s.span
  | .block b => some b.span

/-- The spans of what stands right below a node, in the order of the text: names, parameters,
expressions, statements and blocks, and the operator between two operands. Holes have none. -/
def parts : Node → List Span
  | .expr (.unary _ e _) => e.span?.toList
  | .expr (.binary l op r _) => l.span?.toList ++ op.span :: r.span?.toList
  | .expr (.conditional _ c b a _) => c.span?.toList ++ b.span :: a.toList.map (·.span)
  | .expr (.function _ ps b _) => ps.map (·.span) ++ [b.span]
  | .expr (.call f _ as _) => f.span?.toList ++ as.filterMap Expr.span?
  | .expr _ => []
  | .stmt (.binding _ n v _) => n.span :: v.span?.toList
  | .stmt (.returning _ v _) => v.span?.toList
  | .stmt (.expression _ v _) => v.span?.toList
  | .stmt (.block b) => [b.span]
  | .block b => b.body.map Stmt.span

/-- The spans of a node and its parts run forwards, and none past an offset. -/
def Fits (n : Node) (stop : Nat) : Prop :=
  ∃ p, n.span? = some p ∧ p.Fits stop ∧ ∀ q ∈ n.parts, q.Fits stop

/-- The parts of a node lie in a row inside the node. -/
def Nests (n : Node) (ts : List Token) : Prop :=
  ∃ p, n.span? = some p ∧ p.Aligned ts ∧ Row ts p.start p.stop n.parts

theorem Fits.mono {n : Node} {stop stop' : Nat} (h : n.Fits stop) (hle : stop ≤ stop') :
    n.Fits stop' := by
  obtain ⟨p, hspan, hfits, hparts⟩ := h
  exact ⟨p, hspan, hfits.mono hle, fun q hq => (hparts q hq).mono hle⟩

end Node

/-- What is read between two offsets of a stream: spans, and the nodes at these and below. All of
them fit into the text, and on a condition the spans lie in a row and the nodes nest. -/
structure Stretch (P : Prop) (u : TokenStream) (lo hi : Nat) (ps : List Span) (ns : List Node) :
    Prop where
  fits : ∀ p ∈ ps, p.Fits u.stop
  inside : ∀ n ∈ ns, n.Fits u.stop
  row : P → Row u.toList lo hi ps
  nests : P → ∀ n ∈ ns, n.Nests u.toList

variable {P : Prop} {u : TokenStream} {n : Node} {ns ms : List Node}

namespace Stretch

theorem nil (h : P → lo ≤ hi) : Stretch P u lo hi [] [] :=
  ⟨List.forall_mem_nil _, List.forall_mem_nil _, fun hp => .nil (h hp),
    fun _ => List.forall_mem_nil _⟩

theorem lower (h : Stretch P u lo hi ps ns) (hlo : P → lo' ≤ lo) : Stretch P u lo' hi ps ns :=
  ⟨h.fits, h.inside, fun hp => (h.row hp).lower (hlo hp), h.nests⟩

theorem upper (h : Stretch P u lo hi ps ns) (hhi : P → hi ≤ hi') : Stretch P u lo hi' ps ns :=
  ⟨h.fits, h.inside, fun hp => (h.row hp).upper (hhi hp), h.nests⟩

/-- **Stretches side by side are one.** -/
theorem append (h : Stretch P u lo mid ps ns) (h' : Stretch P u mid hi qs ms) :
    Stretch P u lo hi (ps ++ qs) (ns ++ ms) := by
  refine ⟨?_, ?_, fun hp => (h.row hp).append (h'.row hp), fun hp => ?_⟩
  · exact List.forall_mem_append.2 ⟨h.fits, h'.fits⟩
  · exact List.forall_mem_append.2 ⟨h.inside, h'.inside⟩
  · exact List.forall_mem_append.2 ⟨h.nests hp, h'.nests hp⟩

/-- A span by itself, with no node at it. -/
theorem span (hfits : p.Fits u.stop) (hP : P → p.Aligned u.toList) :
    Stretch P u p.start p.stop [p] [] :=
  ⟨List.forall_mem_singleton.2 hfits, List.forall_mem_nil _, fun hp => .single (hP hp),
    fun _ => List.forall_mem_nil _⟩

/-- **A node is put around a stretch** that its parts make up. -/
theorem node (h : Stretch P u lo hi n.parts ns) (hspan : n.span? = some p) (hfits : p.Fits u.stop)
    (hP : P → p.Aligned u.toList ∧ p.start ≤ lo ∧ hi ≤ p.stop) :
    Stretch P u p.start p.stop [p] (n :: ns) := by
  refine ⟨List.forall_mem_singleton.2 hfits, ?_, fun hp => .single (hP hp).1, fun hp => ?_⟩
  · exact List.forall_mem_cons.2 ⟨⟨p, hspan, hfits, h.fits⟩, h.inside⟩
  · obtain ⟨haligned, hlo, hhi⟩ := hP hp
    have hrow := ((h.row hp).lower hlo).upper hhi
    exact List.forall_mem_cons.2 ⟨⟨p, hspan, haligned, hrow⟩, h.nests hp⟩

/-- A node whose only part is a node at the same span. -/
theorem twice (h : Stretch P u lo hi [p] ns) (hspan : n.span? = some p) (hparts : n.parts = [p]) :
    Stretch P u lo hi [p] (n :: ns) := by
  have hfits := List.forall_mem_singleton.1 h.fits
  refine ⟨h.fits, ?_, h.row, fun hp => ?_⟩
  · exact List.forall_mem_cons.2 ⟨⟨p, hspan, hfits, hparts ▸ h.fits⟩, h.inside⟩
  · obtain ⟨-, haligned, -⟩ := (h.row hp).around
    have hrow : Row u.toList p.start p.stop n.parts := hparts ▸ .single haligned
    exact List.forall_mem_cons.2 ⟨⟨p, hspan, haligned, hrow⟩, h.nests hp⟩

end Stretch

end Monkey

import Monkey.Proofs.Answer
import Monkey.Proofs.Levels
import Monkey.Proofs.Takes
import Monkey.Proofs.Yield

/-!
# Chains of operators

How operands with operators between them are grouped, whatever powers a table gives to the
operators. A tree is `Ordered` if at each of its nodes the operators to the left hold at least as
tightly as the operator of the node, and those to the right more tightly. A chain has one ordered
tree at most (`Expr.Ordered.unique`), and that is what a reader makes of it (`extend_links`). Main
statement: `Session.read?_chain`.
-/

namespace Monkey

/-- The expression that a token is by itself: a number, a truth value or a name. -/
def Token.operand? (t : Token) : Option Expr :=
  match t.kind with
  | .integer => (Lexeme.number? t.text).map fun n : Nat => .number t n t.span
  | .trueWord => some (.boolean t true t.span)
  | .falseWord => some (.boolean t false t.span)
  | .identifier => some (.symbol (.ofToken t))
  | _ => none

/-- The operators between the operands of an expression, in the order of the text. -/
def Expr.operators : Expr → List Token
  | .binary l op r _ => l.operators ++ op :: r.operators
  | _ => []

/-- **Grouped by powers**: at each node the operators to the left are of no lower power than that of
the node, and those to the right are of a higher one. So the operator of the node is the last one
among those of the least power. -/
inductive Expr.Ordered (t : Table) : Expr → Prop where
  | operand {a : Token} {e : Expr} (h : a.operand? = some e) : Ordered t e
  | binary {l r : Expr} {op : Token} (hl : Ordered t l) (hr : Ordered t r)
      (hleft : ∀ o ∈ l.operators, t.power op.kind ≤ t.power o.kind)
      (hright : ∀ o ∈ r.operators, t.power op.kind < t.power o.kind) :
      Ordered t (.binary l op r (.over l.start (l.tokens ++ op :: r.tokens)))

/-- Operators, each with the operand behind it. -/
abbrev Links := List (Token × Token)

/-- The tokens of links, one link after the other. -/
def Links.tokens (ls : Links) : List Token := ls.flatMap fun l => [l.1, l.2]

/-- Operands with operators between them. -/
structure Chain where
  first : Token
  links : Links

/-- The tokens of a chain in their order. -/
def Chain.tokens (c : Chain) : List Token := c.first :: c.links.tokens

namespace Table

variable (t : Table)

/-- A token is read as an operand. -/
def ReadsOperand (a : Token) : Prop :=
  t.prefixRule a.kind = some .literal ∧ a.operand?.isSome = true

/-- A token is read as an operator between two operands, and its power is above a given one. -/
def ReadsOperator (power : Power) (op : Token) : Prop :=
  op.kind ≠ .semicolon ∧ power < t.power op.kind ∧
    (t.infixRule op.kind).map (·.2) = some .binary

/-- Links are read as such behind an operator of some power. -/
def ReadsLinks (power : Power) (ls : Links) : Prop :=
  ∀ l ∈ ls, t.ReadsOperator power l.1 ∧ t.ReadsOperand l.2

/-- A chain is read as such behind an operator of some power. -/
def ReadsChain (power : Power) (c : Chain) : Prop :=
  t.ReadsOperand c.first ∧ t.ReadsLinks power c.links

/-- A token of some kind ends a chain behind an operator of some power. -/
def EndsChain (power : Power) (k : Kind) : Prop := k = .semicolon ∨ t.power k ≤ power

instance (power : Power) (c : Chain) : Decidable (t.ReadsChain power c) := by
  unfold ReadsChain ReadsLinks ReadsOperator ReadsOperand
  infer_instance

instance (power : Power) (k : Kind) : Decidable (t.EndsChain power k) :=
  inferInstanceAs (Decidable (_ ∨ _))

variable {t} {power own : Power} {k : Kind} {op : Token} {ls : Links}

theorem EndsChain.mono (h : t.EndsChain power k) (hp : power ≤ own) : t.EndsChain own k :=
  h.imp_right fun h => Power.le_trans h hp

theorem EndsChain.infixAbove (h : t.EndsChain power k) : t.infixAbove power k = none := by
  rcases h with rfl | h
  · rfl
  · cases hi : t.infixAbove power k with
    | none => rfl
    | some found =>
      obtain ⟨_, _⟩ := found
      obtain ⟨hrule, hlt⟩ := infixRule_of_infixAbove hi
      rw [power_of_infixRule hrule] at h
      exact absurd hlt (Nat.not_lt.2 h)

theorem ReadsOperator.infixAbove (h : t.ReadsOperator power op) :
    t.infixAbove power op.kind = some (t.power op.kind, .binary) := by
  obtain ⟨hk, hlt, hbinary⟩ := h
  obtain ⟨⟨own, rule⟩, hrule, rfl⟩ := Option.map_eq_some_iff.1 hbinary
  have hpower := power_of_infixRule hrule
  rw [hpower] at hlt ⊢
  rw [Table.infixAbove, if_neg hk, hrule]
  simp [hlt]

theorem ReadsLinks.tail {l : Token × Token} (h : t.ReadsLinks power (l :: ls)) :
    t.ReadsLinks power ls := fun l' hl' => h l' (List.mem_cons_of_mem l hl')

/-- Links are read behind any operator that is less tight than theirs. -/
theorem ReadsLinks.tighter (h : t.ReadsLinks power ls) (hlt : ∀ l ∈ ls, own < t.power l.1.kind) :
    t.ReadsLinks own ls := by
  intro l hmem
  obtain ⟨⟨hk, -, hrule⟩, hoperand⟩ := h l hmem
  exact ⟨⟨hk, hlt l hmem, hrule⟩, hoperand⟩

end Table

/-- A token that is an expression by itself is all of it. -/
theorem Token.tokens_of_operand? {a : Token} {e : Expr} (h : a.operand? = some e) :
    e.tokens = [a] ∧ e.operators = [] ∧ e.span?.isSome = true := by
  unfold operand? at h
  split at h
  · obtain ⟨n, -, rfl⟩ := Option.map_eq_some_iff.1 h
    exact ⟨rfl, rfl, rfl⟩
  all_goals cases h
  all_goals exact ⟨rfl, rfl, rfl⟩

theorem Links.length_tokens (ls : Links) : ls.tokens.length = 2 * ls.length := by
  induction ls with
  | nil => rfl
  | cons l ls ih =>
    rw [tokens, List.flatMap_cons, List.length_append, List.length_cons, ← tokens, ih]
    simp only [List.length_cons, List.length_nil]
    omega

theorem Links.tokens_injective {ls rs : Links} (h : ls.tokens = rs.tokens) : ls = rs := by
  induction ls generalizing rs with
  | nil =>
    cases rs with
    | nil => rfl
    | cons r rs => cases h
  | cons l ls ih =>
    cases rs with
    | nil => cases h
    | cons r rs =>
      simp only [tokens, List.flatMap_cons, List.cons_append, List.nil_append,
        List.cons.injEq] at h
      obtain ⟨hop, hoperand, hrest⟩ := h
      rw [Prod.ext hop hoperand, ih hrest]

theorem Chain.tokens_injective {c d : Chain} (h : c.tokens = d.tokens) : c = d := by
  obtain ⟨hfirst, hlinks⟩ := List.cons.inj h
  obtain ⟨first, links⟩ := c
  obtain rfl : first = d.first := hfirst
  rw [show links = d.links from Links.tokens_injective hlinks]

/-- A chain goes on behind an operator as a chain. -/
theorem Chain.tokens_append (a op b : Token) (ls rs : Links) :
    (Chain.mk a (ls ++ (op, b) :: rs)).tokens =
      (Chain.mk a ls).tokens ++ op :: (Chain.mk b rs).tokens := by
  simp [tokens, Links.tokens]

namespace Expr.Ordered

variable {t : Table} {e e' : Expr}

/-- An ordered tree is the tree of a chain. -/
theorem chain (h : e.Ordered t) :
    ∃ c : Chain, e.tokens = c.tokens ∧ e.operators = c.links.map (·.1) := by
  induction h with
  | @operand a e h =>
    obtain ⟨htokens, hoperators, -⟩ := a.tokens_of_operand? h
    exact ⟨⟨a, []⟩, htokens, hoperators⟩
  | @binary l r op _ _ _ _ ihl ihr =>
    obtain ⟨c, hc, hcops⟩ := ihl
    obtain ⟨d, hd, hdops⟩ := ihr
    refine ⟨⟨c.first, c.links ++ (op, d.first) :: d.links⟩, ?_, ?_⟩
    · rw [Chain.tokens_append, Expr.tokens, hc, hd]
    · rw [Expr.operators, hcops, hdops, List.map_append, List.map_cons]

theorem span?_isSome (h : e.Ordered t) : e.span?.isSome = true := by
  cases h with
  | operand h => exact (Token.tokens_of_operand? h).2.2
  | binary => rfl

/-- Where a node starts whose first operand is ordered. -/
theorem startOf (h : e.Ordered t) (op : Token) : Descent.startOf e op = e.start := by
  obtain ⟨span, hs⟩ := Option.isSome_iff_exists.1 h.span?_isSome
  simp [Descent.startOf, Expr.start, hs]

/-- Of two ways to cut a chain at an operator, the second cuts no later if all operators behind the
first cut are tighter than its own, and none before the second is looser than its own. -/
theorem cut_le {ls rs ls' rs' : Links} {x y : Token × Token} (h : ls ++ x :: rs = ls' ++ y :: rs')
    (hright : ∀ l ∈ rs, t.power x.1.kind < t.power l.1.kind)
    (hleft : ∀ l ∈ ls', t.power y.1.kind ≤ t.power l.1.kind) : ls'.length ≤ ls.length := by
  rcases List.append_eq_append_iff.1 h with ⟨mid, hls, hx⟩ | ⟨mid, hls, -⟩
  · cases mid with
    | nil => exact Nat.le_of_eq (by rw [hls, List.append_nil])
    | cons z mid =>
      -- each of the two operators would stand on the wrong side of the other one
      obtain ⟨rfl, rfl⟩ := List.cons.inj hx
      have hlt := hright y (List.mem_append_right mid (List.mem_cons_self ..))
      have hle := hleft x (hls ▸ List.mem_append_right ls (List.mem_cons_self ..))
      exact absurd hlt (Nat.not_lt.2 hle)
  · rw [hls, List.length_append]
    omega

/-- A single operand is no chain with an operator. -/
theorem tokens_binary_ne {l r : Expr} {op a : Token} (hl : l.Ordered t) :
    l.tokens ++ op :: r.tokens ≠ [a] := by
  obtain ⟨c, hc, -⟩ := hl.chain
  rw [hc, Chain.tokens]
  simp

/-- **A chain has one ordered tree at most.** -/
theorem unique (h : e.Ordered t) (h' : e'.Ordered t) (ht : e.tokens = e'.tokens) : e = e' := by
  induction h generalizing e' with
  | @operand a e h =>
    obtain ⟨htokens, -⟩ := a.tokens_of_operand? h
    cases h' with
    | @operand a' _ h' =>
      obtain ⟨htokens', -⟩ := a'.tokens_of_operand? h'
      rw [htokens, htokens'] at ht
      obtain rfl := List.singleton_inj.1 ht
      exact Option.some.inj (h.symm.trans h')
    | binary hl' => exact absurd (ht.symm.trans htokens) hl'.tokens_binary_ne
  | @binary l r op hl hr hleft hright ihl ihr =>
    cases h' with
    | @operand a' _ h' =>
      obtain ⟨htokens', -⟩ := a'.tokens_of_operand? h'
      exact absurd (ht.trans htokens') hl.tokens_binary_ne
    | @binary l' r' op' hl' hr' hleft' hright' =>
      obtain ⟨c, hc, hcops⟩ := hl.chain
      obtain ⟨d, hd, hdops⟩ := hr.chain
      obtain ⟨c', hc', hcops'⟩ := hl'.chain
      obtain ⟨d', hd', hdops'⟩ := hr'.chain
      have hchain : Chain.mk c.first (c.links ++ (op, d.first) :: d.links) =
          Chain.mk c'.first (c'.links ++ (op', d'.first) :: d'.links) := by
        apply Chain.tokens_injective
        rw [Chain.tokens_append, Chain.tokens_append]
        rw [Expr.tokens, Expr.tokens, hc, hd, hc', hd'] at ht
        exact ht
      obtain ⟨hfirst, hlinks⟩ := Chain.mk.inj hchain
      -- both roots are the last operator of the least power, so both cut the chain there
      simp only [hcops, hdops, hcops', hdops', List.forall_mem_map] at hleft hright hleft' hright'
      have hlength : c.links.length = c'.links.length :=
        Nat.le_antisymm (cut_le hlinks.symm hright' hleft) (cut_le hlinks hright hleft')
      obtain ⟨hbefore, hbehind⟩ := List.append_inj hlinks hlength
      obtain ⟨hcut, hrest⟩ := List.cons.inj hbehind
      obtain ⟨rfl, hoperand⟩ := Prod.mk.inj hcut
      obtain rfl := ihl hl' (by rw [hc, hc', Chain.tokens, Chain.tokens, hfirst, hbefore])
      obtain rfl := ihr hr' (by rw [hd, hd', Chain.tokens, Chain.tokens, hoperand, hrest])
      rfl

end Expr.Ordered

namespace Descent

variable {t : Table} {n : Nested} {s s₁ s' : State} {power own : Power} {left e : Expr} {ls : Links}

theorem literal_of_operand? {a : Token} (h : a.operand? = some e) (hs : s.current = a) :
    literal s = some (e, s.advance) := by
  rw [literal, take_bind, hs]
  unfold Token.operand? at h
  split at h
  · next hk =>
    obtain ⟨value, hv, rfl⟩ := Option.map_eq_some_iff.1 h
    simp [hk, hv]
  all_goals cases h
  all_goals next hk => simp [hk]

theorem extend_of_none (h : t.infixAbove power s.kind = none) :
    extend t n power left s = some (left, s) := by
  rw [extend]
  simp [h]

theorem extend_of_some {rule : InfixRule} (h : t.infixAbove power s.kind = some (own, rule))
    (hf : following n left own rule s = some (e, s₁)) (hlt : s₁.left < s.left) :
    extend t n power left s = extend t n power e s₁ := by
  rw [extend]
  simp [h, hf, hlt]

theorem binary_apply {right : Expr} (h : n.expression power s.advance = some (right, s')) :
    binary n power left s =
      some (.binary left s.current right (s'.spanFrom (startOf left s.current)), s') := by
  rw [binary, take_bind]
  exact bind_eq_some_iff.2 ⟨right, s', h, rfl⟩

/-- What a first operand is extended to by links behind it. -/
structure Extended (t : Table) (left : Expr) (ls : Links) (e : Expr) : Prop where
  ordered : e.Ordered t
  tokens : e.tokens = left.tokens ++ ls.tokens
  operators : e.operators = left.operators ++ ls.map (·.1)

theorem Extended.trans {mid : Expr} {rs : Links} (h : Extended t left ls mid)
    (h' : Extended t mid rs e) : Extended t left (ls ++ rs) e := by
  refine ⟨h'.ordered, ?_, ?_⟩
  · rw [h'.tokens, h.tokens, List.append_assoc, Links.tokens, Links.tokens, Links.tokens,
      List.flatMap_append]
  · rw [h'.operators, h.operators, List.append_assoc, List.map_append]

/-- The operators of a first operand hold at least as tightly as the link behind it, if any. -/
def Closed (t : Table) (left : Expr) (ls : Links) : Prop :=
  ∀ l ∈ ls.head?, ∀ o ∈ left.operators, t.power l.1.kind ≤ t.power o.kind

/-- A chain is read as its first operand extended by its links. -/
theorem expression_chain {c : Chain} (hc : t.ReadsChain power c) (ht : Takes c.tokens s s')
    (hx : ∀ {left : Expr} {s₁ : State}, left.Ordered t → Closed t left c.links →
      Takes c.links.tokens s₁ s' →
      ∃ e, extend t n power left s₁ = some (e, s') ∧ Extended t left c.links e) :
    ∃ e, expression t n power s = some (e, s') ∧ e.Ordered t ∧ e.tokens = c.tokens ∧
      e.operators = c.links.map (·.1) := by
  obtain ⟨⟨hrule, hoperand⟩, -⟩ := hc
  obtain ⟨a, ha⟩ := Option.isSome_iff_exists.1 hoperand
  obtain ⟨hfirst, hlinks⟩ := ht.uncons
  obtain ⟨htokens, hoperators, -⟩ := Token.tokens_of_operand? ha
  have hclosed : Closed t a c.links := by
    intro l _ o ho
    rw [hoperators] at ho
    cases ho
  obtain ⟨e, he, hext⟩ := hx (.operand ha) hclosed hlinks
  refine ⟨e, ?_, hext.ordered, ?_, ?_⟩
  · rw [expression, current_bind, hfirst, hrule]
    exact bind_eq_some_iff.2 ⟨a, s.advance, literal_of_operand? ha hfirst, he⟩
  · rw [hext.tokens, htokens, Chain.tokens, List.singleton_append]
  · rw [hext.operators, hoperators, List.nil_append]

/-- At an operator a chain is cut into what its second operand reaches over, and the rest. -/
theorem exists_reach (t : Table) (own : Power) (ls : Links) :
    ∃ inner outer, ls = inner ++ outer ∧ (∀ l ∈ inner, own < t.power l.1.kind) ∧
      ∀ l ∈ outer.head?, t.power l.1.kind ≤ own := by
  refine ⟨ls.takeWhile fun l => own < t.power l.1.kind,
    ls.dropWhile fun l => own < t.power l.1.kind, List.takeWhile_append_dropWhile.symm, ?_, ?_⟩
  · intro l hl
    simpa using List.all_eq_true.1 List.all_takeWhile l hl
  · intro l hl
    have hnot := List.head?_dropWhile_not (fun l : Token × Token => own < t.power l.1.kind) ls
    rw [Option.mem_def.1 hl] at hnot
    have hlt : ¬own < t.power l.1.kind := by simpa using hnot
    exact Nat.not_lt.1 hlt

/-- **The step of the loop**: the operator of a link and its second operand, which reaches over the
links that are tighter, extend a first operand to one that is ordered again. -/
theorem binary_chain {op b : Token} {inner outer : Links} {right : Expr} (hl : left.Ordered t)
    (hclosed : Closed t left ((op, b) :: (inner ++ outer)))
    (hinner : ∀ l ∈ inner, t.power op.kind < t.power l.1.kind)
    (houter : ∀ l ∈ outer.head?, t.power l.1.kind ≤ t.power op.kind)
    (hr : right.Ordered t) (htokens : right.tokens = (Chain.mk b inner).tokens)
    (hoperators : right.operators = inner.map (·.1)) :
    Extended t left ((op, b) :: inner)
        (.binary left op right (.over left.start (left.tokens ++ op :: right.tokens))) ∧
      Closed t (.binary left op right (.over left.start (left.tokens ++ op :: right.tokens)))
        outer := by
  have hleft : ∀ o ∈ left.operators, t.power op.kind ≤ t.power o.kind := hclosed (op, b) rfl
  have hright : ∀ o ∈ right.operators, t.power op.kind < t.power o.kind := by
    rw [hoperators, List.forall_mem_map]
    exact hinner
  refine ⟨⟨.binary hl hr hleft hright, ?_, ?_⟩, ?_⟩
  · rw [Expr.tokens, htokens]
    simp [Chain.tokens, Links.tokens]
  · rw [Expr.operators, hoperators, List.map_cons]
  · intro l hmem o ho
    have hle := houter l hmem
    rw [Expr.operators, List.mem_append, List.mem_cons] at ho
    rcases ho with ho | rfl | ho
    · exact Power.le_trans hle (hleft o ho)
    · exact hle
    · exact Power.le_trans hle (Power.le_of_lt (hright o ho))

theorem Links.tokens_cons (op b : Token) (inner outer : Links) :
    Links.tokens ((op, b) :: (inner ++ outer)) =
      (op :: (Chain.mk b inner).tokens) ++ Links.tokens outer := by
  simp [Links.tokens, Chain.tokens]

/-- A second operand ends where the rest of the links begins, or with all of them. -/
theorem endsChain_of_takes (hp : power ≤ own) (hls : ∀ l ∈ ls.head?, t.power l.1.kind ≤ own)
    (ht : Takes (Links.tokens ls) s s') (hend : t.EndsChain power s'.kind) :
    t.EndsChain own s.kind := by
  cases ls with
  | nil =>
    cases ht
    exact hend.mono hp
  | cons l ls =>
    rw [State.kind, ht.uncons.1]
    exact .inr (hls l rfl)

/-- **Links are read one after the other**, each second operand reaching over the tighter ones. -/
theorem extend_links {depth : Nat} (hd : ls.length ≤ depth) (hls : t.ReadsLinks power ls)
    (hl : left.Ordered t) (hclosed : Closed t left ls) (ht : Takes (Links.tokens ls) s s')
    (hend : t.EndsChain power s'.kind) :
    ∃ e, extend t (nested t depth) power left s = some (e, s') ∧ Extended t left ls e := by
  -- both the second operand and what follows it have fewer links
  induction hk : ls.length using Nat.strongRecOn generalizing depth power ls left s s' with
  | ind k ih =>
    subst hk
    cases ls with
    | nil =>
      cases ht
      refine ⟨left, extend_of_none hend.infixAbove, hl, ?_, ?_⟩ <;> simp [Links.tokens]
    | cons link rest =>
      obtain ⟨op, b⟩ := link
      obtain ⟨inner, outer, rfl, hinner, houter⟩ := exists_reach t (t.power op.kind) rest
      obtain ⟨hop, hb⟩ := hls (op, b) (List.mem_cons_self ..)
      have hrest := List.forall_mem_append.1 hls.tail
      simp only [List.length_cons, List.length_append] at hd ih
      obtain ⟨depth, rfl⟩ : ∃ d, depth = d + 1 := Nat.exists_eq_succ_of_ne_zero (by omega)
      rw [Links.tokens_cons] at ht
      obtain ⟨s₂, hlink, hbehind⟩ := ht.split
      obtain ⟨hcurrent, hsecond⟩ := hlink.uncons
      have hends := endsChain_of_takes (Power.le_of_lt hop.2.1) houter hbehind hend
      have hreads : t.ReadsChain (t.power op.kind) ⟨b, inner⟩ :=
        ⟨hb, Table.ReadsLinks.tighter hrest.1 hinner⟩
      obtain ⟨right, hright, hordered, htokens, hoperators⟩ :=
        expression_chain (n := nested t depth) hreads hsecond fun hl' hclosed' ht' =>
          ih inner.length (by omega) (by simp only; omega) hreads.2 hl' hclosed' ht' hends rfl
      obtain ⟨hmid, hclosed'⟩ :=
        binary_chain hl hclosed hinner houter hordered htokens hoperators
      have hspan : s₂.spanFrom (startOf left op) =
          .over left.start (left.tokens ++ op :: right.tokens) := by
        rw [hlink.spanFrom (List.cons_ne_nil _ _) _ left.tokens, hl.startOf, htokens]
      have hbinary : binary (nested t (depth + 1)) (t.power op.kind) left s = _ :=
        binary_apply hright
      rw [hcurrent, hspan] at hbinary
      have hinfix : t.infixAbove power s.kind = some (t.power op.kind, .binary) := by
        rw [State.kind, hcurrent, hop.infixAbove]
      have hfewer : s₂.left < s.left := by
        rw [hlink.left, List.length_cons]
        omega
      have hdepth : outer.length ≤ depth + 1 := by omega
      obtain ⟨e, he, hext⟩ :=
        ih outer.length (by omega) hdepth hrest.2 hmid.ordered hclosed' hbehind hend rfl
      exact ⟨e, (extend_of_some hinfix hbinary hfewer).trans he, hmid.trans hext⟩

end Descent

open Descent

/-- **Chains are grouped by the powers of the table.** A session that stands before a chain, behind
an operator of some power, reads all of it and nothing else, notes no fault, and makes of it the one
tree that is ordered by the powers of the table. -/
theorem Session.read?_chain {s : Session} {power : Power} {c : Chain} {after : TokenStream}
    (hc : s.table.ReadsChain power c)
    (hs : s.state.stream = ⟨c.tokens ++ after.ahead, after.stop⟩)
    (hend : s.table.EndsChain power after.head.kind) :
    ∃ e, s.read? (fun n => expression s.table n power) =
        some (e, { s with state := ⟨c.tokens.getLast?, after, s.state.log⟩ }) ∧
      e.Ordered s.table ∧ e.tokens = c.tokens ∧
      ∀ e', e'.Ordered s.table → e'.tokens = c.tokens → e' = e := by
  obtain ⟨s', ht, hahead⟩ := Takes.exists_of_ahead (congrArg TokenStream.ahead hs)
  have hstop : s'.stream.stop = after.stop := by rw [ht.stop, hs]
  have hstream : s'.stream = after := by
    rw [show s'.stream = ⟨s'.stream.ahead, s'.stream.stop⟩ from rfl, hahead, hstop]
  have hstate : s' = ⟨c.tokens.getLast?, after, s.state.log⟩ := by
    rw [← hstream, ← ht.log, ← ht.last (List.cons_ne_nil _ _)]
  have hdepth : c.links.length ≤ s.state.left + 1 := by
    have hlength := c.links.length_tokens
    rw [ht.left, Chain.tokens, List.length_cons]
    omega
  rw [← hstream] at hend
  obtain ⟨e, he, hordered, htokens, -⟩ := expression_chain hc ht fun hl hclosed hlinks =>
    extend_links hdepth hc.2 hl hclosed hlinks hend
  refine ⟨e, ?_, hordered, htokens, fun e' h' ht' => h'.unique hordered (ht'.trans htokens.symm)⟩
  rw [Session.read?, unbounded, he, Option.map_some, hstate]

/-- A session by a table that makes a sum tighter than a product. -/
def tightSum : Session :=
  ⟨Table.standard.setInfix .plus .call .binary, .lenient, .start (Scanner.ofString "a*b+1;").drain⟩

/-- The chain before the semicolon. -/
def tightSumChain : Chain :=
  ⟨⟨.identifier, "a", ⟨0, 1⟩⟩, [(⟨.star, "*", ⟨1, 2⟩⟩, ⟨.identifier, "b", ⟨2, 3⟩⟩),
    (⟨.plus, "+", ⟨3, 4⟩⟩, ⟨.integer, "1", ⟨4, 5⟩⟩)]⟩

theorem read?_tightSum :
    tightSum.table.ReadsChain .lowest tightSumChain ∧
      ∃ e, tightSum.read? (fun n => expression tightSum.table n .lowest) =
          some (e, { tightSum with state := ⟨some ⟨.integer, "1", ⟨4, 5⟩⟩,
            ⟨[⟨.semicolon, ";", ⟨5, 6⟩⟩], 6⟩, []⟩ }) ∧
        e.Ordered tightSum.table ∧ e.tokens = tightSumChain.tokens := by
  have hchain : tightSum.table.ReadsChain .lowest tightSumChain := by decide +kernel
  have hstream : tightSum.state.stream =
      ⟨tightSumChain.tokens ++ [⟨.semicolon, ";", ⟨5, 6⟩⟩], 6⟩ := by decide +kernel
  have hend : tightSum.table.EndsChain .lowest .semicolon := by decide
  obtain ⟨e, he, hordered, htokens, -⟩ := @Session.read?_chain _ _ _ ⟨_, 6⟩ hchain hstream hend
  exact ⟨hchain, e, he, hordered, htokens⟩

end Monkey

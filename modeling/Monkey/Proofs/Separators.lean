import Monkey.Proofs.Slices

/-!
# Between the items of a list

The parameters of a function and the arguments of a call are lists of items. Commas may stand between
two items, and nothing else does (`Derives.neighbours_arguments`, `Derives.neighbours_parameters`).
But no comma need stand there: two items may stand side by side if the second does not go on with the
first, as an operator or a parenthesis would. Main statement: `read_neighbours`.
-/

namespace Monkey

variable {ts us : List Token} {t : Token} {n : Node} {a b e : Expr} {es : List Expr}
  {ps : List Symbol} {source : String}

/-- The items that a node lists: the parameters of a function or the arguments of a call. -/
def Node.items : Node → List Expr
  | .expr (.function _ ps _ _) => ps.map .symbol
  | .expr (.call _ _ as _) => as
  | _ => []

/-- Among the tokens, one expression is spelled behind another. Between them stand commas and nothing
else, and one at least if the second expression goes on with the first. -/
def Neighbours (ts : List Token) (a b : Expr) : Prop :=
  ∃ as gap bs, as ++ (gap ++ bs) <:+: ts ∧ Derives (.expression .lowest a) as ∧
    Derives (.expression .lowest b) bs ∧ (∀ c ∈ gap, c.kind = .comma) ∧ (gap = [] → Unextended bs)

theorem Neighbours.mono (h : Neighbours us a b) (hi : us <:+: ts) : Neighbours ts a b := by
  obtain ⟨as, gap, bs, hus, hd⟩ := h
  exact ⟨as, gap, bs, hus.trans hi, hd⟩

/-- Two items that follow each other are the first two of a list, or follow each other in the rest. -/
theorem pair_infix_cons (h : [a, b] <:+: e :: es) :
    (e = a ∧ ∃ rest, es = b :: rest) ∨ [a, b] <:+: es := by
  refine (List.infix_cons_iff.1 h).imp (fun hprefix => ?_) id
  obtain ⟨rfl, rest, hrest⟩ := List.cons_prefix_cons.1 hprefix
  exact ⟨rfl, rest, hrest.symm⟩

theorem Unextended.of_append (h : Unextended (ts ++ us)) : Unextended ts := by
  intro t ht
  cases ts with
  | nil => cases ht
  | cons => exact h t ht

/-- In front of the first argument stand commas and nothing else. -/
theorem Derives.first_argument (h : Derives (.arguments (e :: es)) ts) :
    ∃ gap us rest, ts = gap ++ us ++ rest ∧ (∀ c ∈ gap, c.kind = .comma) ∧
      Derives (.expression .lowest e) us := by
  generalize hf : Form.arguments (e :: es) = f at h
  induction h with
  | @comma _ c _ hc _ ih =>
    cases hf
    obtain ⟨gap, us, rest, rfl, hgap, he⟩ := ih rfl
    exact ⟨c :: gap, us, rest, rfl, List.forall_mem_cons.2 ⟨hc, hgap⟩, he⟩
  | @argument ts us _ _ he =>
    cases hf
    exact ⟨[], ts, us, rfl, List.forall_mem_nil _, he⟩
  | _ => cases hf

/-- **Between two arguments stand commas and nothing else.** -/
theorem Derives.neighbours_arguments (h : Derives (.arguments es) ts) (hab : [a, b] <:+: es) :
    Neighbours ts a b := by
  generalize hf : Form.arguments es = f at h
  induction h generalizing es with
  | argumentsEnd =>
    cases hf
    cases List.infix_nil.1 hab
  | comma _ _ ih =>
    cases hf
    exact (ih hab rfl).mono (List.suffix_cons _ _).isInfix
  | @argument ts us _ _ he ha hu _ ih =>
    cases hf
    rcases pair_infix_cons hab with ⟨rfl, rest, rfl⟩ | hab
    · obtain ⟨gap, bs, behind, rfl, hgap, hb⟩ := ha.first_argument
      refine ⟨ts, gap, bs, ⟨[], behind, by simp⟩, he, hb, hgap, ?_⟩
      rintro rfl
      exact hu.of_append
    · exact (ih hab rfl).mono (List.suffix_append ts us).isInfix
  | _ => cases hf

/-- In front of the first parameter stands nothing. -/
theorem Derives.first_parameter {s : Symbol} (h : Derives (.parameters (s :: ps)) ts) :
    ∃ t us, ts = t :: us ∧ t.kind = .identifier ∧ s = .ofToken t := by
  cases h with
  | parameter h => exact ⟨_, _, rfl, h, rfl⟩
  | parameterComma h => exact ⟨_, _, rfl, h, rfl⟩

/-- A parameter and the one behind it, which follows some commas or none. -/
theorem Derives.neighbours_first {gap : List Token} {rest : List Expr} (h : t.kind = .identifier)
    (hgap : ∀ c ∈ gap, c.kind = .comma) (hp : Derives (.parameters ps) ts)
    (hb : ps.map .symbol = b :: rest) :
    Neighbours (t :: (gap ++ ts)) (.symbol (.ofToken t)) b := by
  obtain ⟨s, ps, rfl, rfl, -⟩ := List.map_eq_cons_iff.1 hb
  obtain ⟨u, us, rfl, hu, rfl⟩ := hp.first_parameter
  have hname : ∀ {v : Token}, v.kind = .identifier →
      Derives (.expression .lowest (.symbol (.ofToken v))) [v] :=
    fun hv => (Derives.identifier hv).of_le (Power.lowest_le _)
  refine ⟨[t], gap, [u], ⟨[], us, by simp⟩, hname h, hname hu, hgap, fun _ v hv => ?_⟩
  obtain rfl := Option.some.inj hv
  rw [hu]
  rfl

/-- **Between two parameters stands a comma or nothing.** -/
theorem Derives.neighbours_parameters (h : Derives (.parameters ps) ts)
    (hab : [a, b] <:+: ps.map .symbol) : Neighbours ts a b := by
  generalize hf : Form.parameters ps = f at h
  induction h generalizing ps with
  | parametersEnd =>
    cases hf
    cases List.infix_nil.1 hab
  | @parameter ts t ps h hp ih =>
    cases hf
    rcases pair_infix_cons hab with ⟨rfl, rest, hrest⟩ | hab
    · exact hp.neighbours_first h (List.forall_mem_nil _) hrest
    · exact (ih hab rfl).mono (List.suffix_cons t ts).isInfix
  | @parameterComma ts t c ps h hc hp ih =>
    cases hf
    rcases pair_infix_cons hab with ⟨rfl, rest, hrest⟩ | hab
    · exact hp.neighbours_first h (List.forall_mem_singleton.2 hc) hrest
    · exact (ih hab rfl).mono (List.suffix_append [t, c] ts).isInfix
  | _ => cases hf

/-- **Commas and nothing else stand between the items of a list**, or no token at all: in a text
without faults, between any two parameters of a function and between any two arguments of a call. -/
theorem read_neighbours {recovery : Recovery} (hquiet : (read source recovery).diagnostics = [])
    (hn : n ∈ (read source recovery).program.nodes) (hab : [a, b] <:+: n.items) :
    Neighbours (tokenize source) a b := by
  have hspelled := (derives_of_read hquiet).1.spells n hn
  have htokens : (Scanner.ofString source).drain.ahead <:+: tokenize source :=
    (List.prefix_append ..).isInfix
  have hnone : ¬ [a, b] <:+: ([] : List Expr) := fun h => by cases List.infix_nil.1 h
  cases n with
  | expr e =>
    cases e with
    | function t ps body p =>
      obtain ⟨ts, hts, hd, -⟩ := hspelled
      obtain ⟨us, hus, hp⟩ := hd.listedIn
      exact (hp.neighbours_parameters hab).mono ((hus.trans hts).trans htokens)
    | call f t as p =>
      obtain ⟨ts, hts, hd, -⟩ := hspelled
      obtain ⟨us, hus, ha⟩ := hd.listedIn
      exact (ha.neighbours_arguments hab).mono ((hus.trans hts).trans htokens)
    | _ => exact absurd hab hnone
  | _ => exact absurd hab hnone

/-- Two parameters with a comma between them. -/
theorem read_neighbours_named :
    (read "fn(x, y) { x };" .synchronize).diagnostics = [] ∧
      ∃ n ∈ (read "fn(x, y) { x };" .synchronize).program.nodes, ∃ a b,
        n.items = [a, b] ∧ Neighbours (tokenize "fn(x, y) { x };") a b := by
  have hquiet : (read "fn(x, y) { x };" .synchronize).diagnostics = [] := by decide +kernel
  have hany : ((read "fn(x, y) { x };" .synchronize).program.nodes.any
      (·.items.length == 2)) = true := by decide +kernel
  obtain ⟨n, hn, hlength⟩ := List.any_eq_true.1 hany
  match hitems : n.items, eq_of_beq hlength with
  | [a, b], _ =>
    exact ⟨hquiet, n, hn, a, b, hitems, read_neighbours hquiet hn (hitems ▸ List.infix_refl _)⟩

/-- Two parameters, and no comma in the whole text. -/
theorem read_neighbours_bare :
    (read "fn(x y) { x };" .synchronize).diagnostics = [] ∧
      (∃ n ∈ (read "fn(x y) { x };" .synchronize).program.nodes, n.items.length = 2) ∧
      ∀ t ∈ tokenize "fn(x y) { x };", t.kind ≠ .comma := by
  have hany : ((read "fn(x y) { x };" .synchronize).program.nodes.any
      (·.items.length == 2)) = true := by decide +kernel
  obtain ⟨n, hn, hlength⟩ := List.any_eq_true.1 hany
  exact ⟨by decide +kernel, ⟨n, hn, eq_of_beq hlength⟩, by decide +kernel⟩

end Monkey

import Monkey.Proofs.Conservation
import Monkey.Proofs.Lossless
import Monkey.Proofs.Nodes

/-!
# Numbers

A number in a tree is exactly the one that its digits name, or it is reported. A run adds numbers to
what it was given, each with the value of its digits or with zero in place of one that is too large,
and it reports those that are too large, in their order, and no other (`Run.numbers`). Since no
number is taken out of a tree again, the numbers that a program holds and those that were reported
correspond one to one, whatever else is wrong with the text. Main statement: `numbers_exact`.
-/

namespace Monkey

/-- The token of a number that is too large, if that is what is wrong. -/
def Cause.overflow? : Cause → Option Token
  | .overflow t => some t
  | _ => none

/-- The token and the value of a number. -/
def Node.numeral? : Node → Option (Token × Int)
  | .expr (.number t v _) => some (t, v)
  | _ => none

/-- The numbers among some nodes, each with its token. -/
def numerals (ns : List Node) : List (Token × Int) := ns.filterMap Node.numeral?

/-- The tokens of the numbers of a program, in the order of its nodes. -/
def Program.numbers (p : Program) : List Token := (numerals p.nodes).map Prod.fst

/-- The value of the number with this token: the one that its digits name, or zero if that is too
large. -/
def Token.numberValue (t : Token) : Int := if t.decimal ≤ Lexeme.numberLimit then t.decimal else 0

variable {n : Node} {ns ms : List Node}

theorem numerals_cons (h : n.numeral? = none) : numerals (n :: ns) = numerals ns :=
  List.filterMap_cons_none h

theorem numerals_append : numerals (ns ++ ms) = numerals ns ++ numerals ms := List.filterMap_append

theorem mem_numerals {t : Token} {v : Int} :
    (t, v) ∈ numerals ns ↔ ∃ p, .expr (.number t v p) ∈ ns := by
  unfold numerals
  rw [List.mem_filterMap]
  constructor
  · rintro ⟨n, hn, hnumeral⟩
    unfold Node.numeral? at hnumeral
    split at hnumeral
    · next t v p =>
      obtain ⟨rfl, rfl⟩ := Prod.mk.inj (Option.some.inj hnumeral)
      exact ⟨p, hn⟩
    · cases hnumeral
  · rintro ⟨p, hn⟩
    exact ⟨_, hn, rfl⟩

mutual

/-- The token of a number is one of those that the tree holds. -/
theorem Expr.numerals_sublist : ∀ e : Expr, ((numerals e.nodes).map Prod.fst).Sublist e.tokens
  | .absent => .slnil
  | .symbol _ => List.nil_sublist _
  | .number .. => List.Sublist.refl _
  | .boolean .. => List.nil_sublist _
  | .unary _ e _ => by
    rw [Expr.nodes, numerals_cons rfl, Expr.tokens]
    exact e.numerals_sublist.cons _
  | .binary l _ r _ => by
    rw [Expr.nodes, numerals_cons rfl, numerals_append, List.map_append, Expr.tokens]
    exact l.numerals_sublist.append (r.numerals_sublist.cons _)
  | .conditional _ c b none _ => by
    rw [Expr.nodes, numerals_cons rfl, numerals_append, List.map_append, Expr.tokens]
    exact (c.numerals_sublist.append b.numerals_sublist).cons _
  | .conditional _ c b (some a) _ => by
    rw [Expr.nodes, numerals_cons rfl, numerals_append, numerals_append, List.map_append,
      List.map_append, List.append_assoc, Expr.tokens]
    exact (c.numerals_sublist.append (b.numerals_sublist.append a.numerals_sublist)).cons _
  | .function _ _ b _ => by
    rw [Expr.nodes, numerals_cons rfl, Expr.tokens]
    exact (b.numerals_sublist.trans (List.sublist_append_right _ _)).cons _
  | .call f _ as _ => by
    rw [Expr.nodes, numerals_cons rfl, numerals_append, List.map_append, Expr.tokens]
    exact f.numerals_sublist.append ((Expr.numerals_sublistAll as).cons _)
termination_by structural e => e

theorem Expr.numerals_sublistAll :
    ∀ es : List Expr, ((numerals (Expr.nodesAll es)).map Prod.fst).Sublist (Expr.tokensAll es)
  | [] => .slnil
  | e :: es => by
    rw [Expr.nodesAll, numerals_append, List.map_append, Expr.tokensAll]
    exact e.numerals_sublist.append (Expr.numerals_sublistAll es)
termination_by structural es => es

theorem Stmt.numerals_sublist : ∀ s : Stmt, ((numerals s.nodes).map Prod.fst).Sublist s.tokens
  | .binding _ _ v _ => by
    rw [Stmt.nodes, numerals_cons rfl, Stmt.tokens]
    exact (v.numerals_sublist.cons _).cons _
  | .returning _ v _ => by
    rw [Stmt.nodes, numerals_cons rfl, Stmt.tokens]
    exact v.numerals_sublist.cons _
  | .expression _ v _ => by
    rw [Stmt.nodes, numerals_cons rfl, Stmt.tokens]
    exact v.numerals_sublist
  | .block b => by
    rw [Stmt.nodes, numerals_cons rfl, Stmt.tokens]
    exact b.numerals_sublist
termination_by structural s => s

theorem Stmt.numerals_sublistAll :
    ∀ ss : List Stmt, ((numerals (Stmt.nodesAll ss)).map Prod.fst).Sublist (Stmt.tokensAll ss)
  | [] => .slnil
  | s :: ss => by
    rw [Stmt.nodesAll, numerals_append, List.map_append, Stmt.tokensAll]
    exact s.numerals_sublist.append (Stmt.numerals_sublistAll ss)
termination_by structural ss => ss

theorem Block.numerals_sublist : ∀ b : Block, ((numerals b.nodes).map Prod.fst).Sublist b.tokens
  | ⟨_, body, _⟩ => by
    rw [Block.nodes, numerals_cons rfl, Block.tokens]
    exact (Stmt.numerals_sublistAll body).cons _
termination_by structural b => b

end

namespace Descent

variable {tbl : Table} {s s₁ s' : State} {e : Expr} {ss : List Stmt} {recovery : Recovery}
  {ks ls : List (Token × Int)}

/-- Between two states numbers were read: each has its value, and those that are too large were
reported. -/
structure Numbered (ks : List (Token × Int)) (s s' : State) : Prop where
  exact : ∀ k ∈ ks, k.1.kind = .integer ∧ k.2 = k.1.numberValue
  reported : s'.found Cause.overflow? =
    s.found Cause.overflow? ++ (ks.map Prod.fst).filter (Lexeme.numberLimit < ·.decimal)

namespace Numbered

theorem nil (h : s'.found Cause.overflow? = s.found Cause.overflow?) : Numbered [] s s' := by
  refine ⟨List.forall_mem_nil _, ?_⟩
  rw [h, List.map_nil, List.filter_nil, List.append_nil]

theorem append (h : Numbered ks s s₁) (h' : Numbered ls s₁ s') : Numbered (ks ++ ls) s s' := by
  refine ⟨List.forall_mem_append.2 ⟨h.exact, h'.exact⟩, ?_⟩
  rw [h'.reported, h.reported, List.map_append, List.filter_append, List.append_assoc]

/-- What is done in front makes no difference if it reports no number. -/
theorem behind (h : Numbered ks s₁ s')
    (hs : s₁.found Cause.overflow? = s.found Cause.overflow?) : Numbered ks s s' :=
  (nil hs).append h

/-- What is done afterwards makes no difference if it reports no number. -/
theorem before (h : Numbered ks s s₁)
    (hs : s'.found Cause.overflow? = s₁.found Cause.overflow?) : Numbered ks s s' :=
  ⟨h.exact, hs ▸ h.reported⟩

/-- A number that is not too large is the one that its digits name. -/
theorem fitting (hk : s.kind = .integer) (hle : s.current.decimal ≤ Lexeme.numberLimit) :
    Numbered [(s.current, (s.current.decimal : Int))] s s.advance := by
  have hnone : [s.current].filter (Lexeme.numberLimit < ·.decimal) = [] :=
    List.filter_eq_nil_iff.2 (by simpa using hle)
  refine ⟨List.forall_mem_singleton.2 ⟨hk, (if_pos hle).symm⟩, ?_⟩
  show s.advance.found _ = s.found _ ++ [s.current].filter (Lexeme.numberLimit < ·.decimal)
  rw [hnone, List.append_nil, State.found_advance]

/-- A number that is too large is reported, and zero is read for it. -/
theorem overflow (hk : s.kind = .integer) (hgt : Lexeme.numberLimit < s.current.decimal)
    (i : Nat) : Numbered [(s.current, 0)] s (s.advance.note (.overflow s.current) i) := by
  have hone : [s.current].filter (Lexeme.numberLimit < ·.decimal) = [s.current] :=
    List.filter_eq_self.2 (by simpa using hgt)
  refine ⟨List.forall_mem_singleton.2 ⟨hk, (if_neg (Nat.not_le.2 hgt)).symm⟩, ?_⟩
  show _ = s.found _ ++ [s.current].filter (Lexeme.numberLimit < ·.decimal)
  rw [hone, State.found_note, State.found_advance]
  rfl

end Numbered

theorem found_overflow_expected (s : State) (k : Kind) :
    (s.expected k).found Cause.overflow? = s.found Cause.overflow? :=
  State.found_expected (fun _ _ => rfl) s k

/-- The numbers that the tree of a phrase has; of an extension, those that come to the operand. -/
def Phrase.Adds : Phrase → List (Token × Int) → Prop
  | .expression _ e, ks | .opening _ e, ks | .group e, ks | .returned e, ks => numerals e.nodes = ks
  | .extension _ left e, ks | .following _ _ left e, ks =>
    numerals e.nodes = numerals left.nodes ++ ks
  | .arguments es, ks => numerals (Expr.nodesAll es) = ks
  | .parameters _, ks => ks = []
  | .block b, ks => numerals b.nodes = ks
  | .alternative b, ks => numerals (b.elim [] Block.nodes) = ks
  | .ruled _ st, ks | .statement st, ks => numerals st.nodes = ks
  | .statements ss, ks => numerals (Stmt.nodesAll ss) = ks

theorem literal_numbers (h : literal s = some (e, s')) : Numbered (numerals e.nodes) s s' := by
  rcases literal_cases h with ⟨n, hk, hn, rfl, rfl⟩ | ⟨hk, hn, rfl, rfl⟩ | ⟨-, rfl, rfl⟩ |
    ⟨-, rfl, rfl⟩ | ⟨-, -, -, rfl, rfl⟩
  · rw [Token.number?_text] at hn
    split at hn
    · next hle =>
      obtain rfl := Option.some.inj hn
      exact .fitting hk hle
    · cases hn
  · rw [Token.number?_text] at hn
    split at hn
    · cases hn
    · next hgt => exact .overflow hk (Nat.lt_of_not_le hgt) _
  all_goals exact .nil s.found_advance

/-- **Every run reads numbers**, to be added to those of the given operand. -/
theorem Run.numbers {p : Phrase} (h : Run tbl p s s') : ∃ ks, p.Adds ks ∧ Numbered ks s s' := by
  induction h with
  | hole h =>
    refine ⟨[], rfl, .nil ?_⟩
    rw [State.found_note, State.found_advance]
    exact List.append_nil _
  | expression _ _ _ iho ihe =>
    obtain ⟨ks, rfl, ho⟩ := iho
    obtain ⟨ls, hls, he⟩ := ihe
    exact ⟨_, hls, ho.append he⟩
  | literal h => exact ⟨_, rfl, literal_numbers h⟩
  | unary _ ih =>
    obtain ⟨ks, rfl, he⟩ := ih
    exact ⟨_, rfl, he.behind (State.found_advance _)⟩
  | opened _ ih => exact ih
  | conditional _ _ _ ihe ihb iha =>
    obtain ⟨ks, rfl, he⟩ := ihe
    obtain ⟨ls, rfl, hb⟩ := ihb
    obtain ⟨ns, rfl, ha⟩ := iha
    refine ⟨_, ?_, ((he.append hb).append ha).behind (State.found_advance _)⟩
    rw [Phrase.Adds, Expr.nodes_conditional, numerals_cons rfl, numerals_append, numerals_append]
  | function _ _ ihp ihb =>
    obtain ⟨ks, rfl, hp⟩ := ihp
    obtain ⟨ls, rfl, hb⟩ := ihb
    have hbody := hb.behind (found_overflow_expected _ _)
    have hopen := hp.behind (found_overflow_expected _ _)
    exact ⟨_, rfl, (hopen.append hbody).behind (State.found_advance _)⟩
  | group _ ih =>
    obtain ⟨ks, rfl, he⟩ := ih
    have hopen := he.behind (found_overflow_expected _ _)
    exact ⟨_, rfl, hopen.before (found_overflow_expected _ _)⟩
  | stop => exact ⟨[], (List.append_nil _).symm, .nil rfl⟩
  | extend _ _ _ ihf ihe =>
    obtain ⟨ks, hks, hf⟩ := ihf
    obtain ⟨ls, hls, he⟩ := ihe
    refine ⟨ks ++ ls, ?_, hf.append he⟩
    simp only [Phrase.Adds] at hks hls ⊢
    rw [hls, hks, List.append_assoc]
  | binary _ ih =>
    obtain ⟨ks, rfl, he⟩ := ih
    refine ⟨_, ?_, he.behind (State.found_advance _)⟩
    rw [Phrase.Adds, Expr.nodes, numerals_cons rfl, numerals_append]
  | call _ ih =>
    obtain ⟨ks, rfl, ha⟩ := ih
    have hargs := ha.behind (State.found_advance _)
    refine ⟨_, ?_, hargs.before (found_overflow_expected _ _)⟩
    rw [Phrase.Adds, Expr.nodes, numerals_cons rfl, numerals_append]
  | argumentsEnd | parametersEnd | noAlternative | noValue | statementsEnd =>
    exact ⟨[], rfl, .nil rfl⟩
  | comma _ _ ih =>
    obtain ⟨ks, hks, ha⟩ := ih
    exact ⟨ks, hks, ha.behind (State.found_advance _)⟩
  | noArgument _ _ _ _ ihe iha =>
    obtain ⟨ks, rfl, he⟩ := ihe
    obtain ⟨ls, hls, ha⟩ := iha
    exact ⟨ls, hls, he.append ha⟩
  | argument _ _ _ _ _ ihe iha =>
    obtain ⟨ks, rfl, he⟩ := ihe
    obtain ⟨ls, rfl, ha⟩ := iha
    refine ⟨_, ?_, he.append ha⟩
    rw [Phrase.Adds, Expr.nodesAll, numerals_append]
  | noParameter _ _ _ ih =>
    obtain ⟨ks, hks, hp⟩ := ih
    have hrest := hp.behind (State.found_passed _ _)
    exact ⟨ks, hks, hrest.behind (found_overflow_expected _ _)⟩
  | parameter _ _ ih =>
    obtain ⟨ks, hks, hp⟩ := ih
    have hrest := hp.behind (State.found_passed _ _)
    exact ⟨ks, hks, hrest.behind (found_overflow_expected _ _)⟩
  | block _ ih =>
    obtain ⟨ks, rfl, hb⟩ := ih
    have hopen := hb.behind (found_overflow_expected _ _)
    exact ⟨_, rfl, hopen.before (found_overflow_expected _ _)⟩
  | alternative _ _ ih =>
    obtain ⟨ks, rfl, hb⟩ := ih
    exact ⟨_, rfl, hb.behind (State.found_advance _)⟩
  | value _ _ ih => exact ih
  | binding _ ih =>
    obtain ⟨ks, rfl, he⟩ := ih
    have hname := (he.behind (found_overflow_expected _ _)).behind (found_overflow_expected _ _)
    have htoken := hname.behind (State.found_advance _)
    exact ⟨_, rfl, htoken.before (found_overflow_expected _ _)⟩
  | returning _ ih =>
    obtain ⟨ks, rfl, he⟩ := ih
    have htoken := he.behind (State.found_advance _)
    exact ⟨_, rfl, htoken.before (found_overflow_expected _ _)⟩
  | ruledBlock _ ih => exact ih
  | bare _ ih =>
    obtain ⟨ks, rfl, he⟩ := ih
    exact ⟨_, rfl, he.before (State.found_passed _ _)⟩
  | statement _ ih => exact ih
  | statements _ _ _ ihs ihss =>
    obtain ⟨ks, rfl, hs⟩ := ihs
    obtain ⟨ls, rfl, hss⟩ := ihss
    refine ⟨_, ?_, hs.append hss⟩
    rw [Phrase.Adds, Stmt.nodesAll, numerals_append]

theorem TopRun.numbers (h : TopRun tbl recovery ss s s') :
    Numbered (numerals (Stmt.nodesAll ss)) s s' := by
  induction h with
  | done => exact .nil rfl
  | next _ hs hr _ ih =>
    obtain ⟨ks, rfl, hs⟩ := hs.numbers
    -- what is skipped reports nothing
    obtain ⟨ts, ht⟩ := recover_takes hr
    rw [Stmt.nodesAll, numerals_append]
    exact hs.append (ih.behind (State.found_of_log ht.log))

end Descent

open Descent

variable {source : String} {t : Token}

/-- The text of a token that is read as a number is made of digits. -/
theorem digits_of_integer (ht : t ∈ tokenize source) (hk : t.kind = .integer) :
    t.text ≠ "" ∧ ∀ c ∈ t.text.toList, c.isDigit = true := by
  rcases (splits_tokenize source).mem_cases ht with rfl | ⟨front, behind, l, -, hl, rfl⟩
  · cases hk
  · obtain ⟨hne, hdigits⟩ := hl.digits hk
    have htext : (l.placed (0 + Text.width front)).text.toList = l.chars := String.toList_ofList
    rw [htext]
    refine ⟨fun hempty => hne ?_, hdigits⟩
    rw [← htext, hempty]
    rfl

/-- Tokens of numbers are none that says that the text is at its end. -/
theorem Program.numbers_sublist {p : Program} (h : ∀ t ∈ p.numbers, t.kind = .integer) :
    p.numbers.Sublist p.tokens := by
  have hsub := (Stmt.numerals_sublistAll p.body).filter fun t => t.kind ≠ .eof
  have hall : p.numbers.filter (fun t => t.kind ≠ .eof) = p.numbers := by
    rw [List.filter_eq_self]
    intro t ht
    rw [h t ht]
    rfl
  rw [← hall]
  exact hsub

/-- **Numbers are exact or reported.** Whatever is done after faults, each number of a program is
made of digits and has the value that these name, or zero if that is above the greatest number of 64
bits with a sign. The tokens of the numbers are tokens of the text in their order, and those of the
numbers that are too large are exactly the ones reported as such, in the same order. -/
theorem numbers_exact (source : String) (recovery : Recovery) :
    (∀ t v p, .expr (.number t v p) ∈ (read source recovery).program.nodes →
        t.kind = .integer ∧ t.text ≠ "" ∧ (∀ c ∈ t.text.toList, c.isDigit = true) ∧
          v = if t.decimal ≤ Lexeme.numberLimit then (t.decimal : Int) else 0) ∧
      (read source recovery).program.numbers.Sublist (tokenize source) ∧
      (read source recovery).diagnostics.filterMap (·.cause.overflow?) =
        (read source recovery).program.numbers.filter (Lexeme.numberLimit < ·.decimal) := by
  obtain ⟨s', hrun, -, hdiag⟩ := read_run source recovery
  have hnumbers : Numbered (numerals (read source recovery).program.nodes) _ s' := hrun.numbers
  have hkinds : ∀ t ∈ (read source recovery).program.numbers, t.kind = .integer := by
    intro t ht
    obtain ⟨k, hk, rfl⟩ := List.mem_map.1 ht
    exact (hnumbers.exact k hk).1
  have hsub : (read source recovery).program.numbers.Sublist (tokenize source) :=
    (Program.numbers_sublist hkinds).trans (tokens_sublist source recovery)
  refine ⟨fun t v p hmem => ?_, hsub, ?_⟩
  · have hnumeral := mem_numerals.2 ⟨p, hmem⟩
    obtain ⟨hk, hv⟩ := hnumbers.exact _ hnumeral
    obtain ⟨hne, hdigits⟩ := digits_of_integer (hsub.subset (List.mem_map_of_mem hnumeral)) hk
    exact ⟨hk, hne, hdigits, hv⟩
  · rw [hdiag]
    exact hnumbers.reported

/-- A number with leading zeros, and one that is too large in a group that is not closed. -/
theorem numbers_exact_openGroup :
    (∃ p, .expr (.number ⟨.integer, "007", ⟨0, 3⟩⟩ 7 p) ∈
          (read "007 + (9223372036854775808" .lenient).program.nodes ∧
        (7 : Int) = if Token.decimal ⟨.integer, "007", ⟨0, 3⟩⟩ ≤ Lexeme.numberLimit then
          (Token.decimal ⟨.integer, "007", ⟨0, 3⟩⟩ : Int) else 0) ∧
      (read "007 + (9223372036854775808" .lenient).diagnostics.filterMap (·.cause.overflow?) =
        [⟨.integer, "9223372036854775808", ⟨7, 26⟩⟩] := by
  obtain ⟨hexact, -, hreported⟩ := numbers_exact "007 + (9223372036854775808" .lenient
  have hnumeral : (⟨.integer, "007", ⟨0, 3⟩⟩, 7) ∈
      numerals (read "007 + (9223372036854775808" .lenient).program.nodes := by decide +kernel
  obtain ⟨p, hmem⟩ := mem_numerals.1 hnumeral
  refine ⟨⟨p, hmem, (hexact _ _ p hmem).2.2.2⟩, hreported.trans ?_⟩
  decide +kernel

end Monkey

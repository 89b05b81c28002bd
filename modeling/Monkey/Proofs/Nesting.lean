import Monkey.Proofs.Rows
import Monkey.Proofs.Tiling

/-!
# Spans nest

The span of a node starts with a token and is closed when what stands below has been read, so it
holds the spans of its parts. That is shown by induction on a run (`Run.lies`), for any reader of a
stream of tokens that stand in order. Where the end of the text is met inside a construct, a part may
be empty or stand behind the node; so it is shown on the condition that no fault is noted at the end.
Main statement: `read_nests`.
-/

namespace Monkey

namespace Descent

variable {t : Table} {u : TokenStream} {s s₁ s' : State} {k : Kind} {us : List Token}

/-- No fault is noted at the end of the text. -/
def State.QuietAtEnd (s : State) : Prop := ∀ d ∈ s.log, d.cause.token.kind ≠ .eof

theorem State.QuietAtEnd.of_suffix (h : s'.QuietAtEnd) (hlog : s.log <:+ s'.log) : s.QuietAtEnd :=
  fun d hd => h d (hlog.subset hd)

/-- Where a token has to stand and the end is not noted, a token stands. -/
theorem State.QuietAtEnd.kind_of_expected (h : (s.expected k).QuietAtEnd) (hk : k ≠ .eof) :
    s.kind ≠ .eof := by
  intro hend
  have hne : s.kind ≠ k := fun h => hk (h ▸ hend)
  unfold State.expected at h
  rw [if_neg hne] at h
  have hfault : (⟨.unexpected s.current k, s.current.span.start⟩ : Diagnostic) ∈
      ((s.noteHere (.unexpected s.current k)).advance).log := by
    rw [State.log_advance]
    exact List.mem_cons_self
  exact h _ hfault hend

@[simp] theorem State.lastStop_note (s : State) (c : Cause) (position : Nat) :
    (s.note c position).lastStop = s.lastStop := rfl

theorem State.advance_note (s : State) (c : Cause) (position : Nat) :
    (s.note c position).advance = s.advance.note c position := by
  have hahead : (s.note c position).stream.ahead = s.stream.ahead := rfl
  unfold State.advance
  rw [hahead]
  split <;> rfl

/-- Whether it is the right one or not, the token is taken. -/
theorem State.lastStop_expected (s : State) (k : Kind) :
    (s.expected k).lastStop = s.advance.lastStop := by
  unfold State.expected
  split
  · rfl
  · rw [State.noteHere, State.advance_note, State.lastStop_note]

/-- A reader of a stream may stand in the state. The tokens of the stream are in order, and all places
in it have a name. -/
structure State.Stands (u : TokenStream) (s : State) : Prop where
  placed : u.Placed 0 u.stop
  limit : u.stop ≤ Span.limit
  reached : (State.start u).Precedes s

namespace State.Stands

theorem next (h : s.Stands u) (h' : s.Precedes s') : s'.Stands u :=
  ⟨h.placed, h.limit, h.reached.trans h'⟩

/-- What has been taken from the stream and what is to come make up the stream. -/
theorem exists_taken (h : s.Stands u) :
    ∃ ts, u.ahead = ts ++ s.stream.ahead ∧ s.lastStop = stopOf ts ∧ s.stream.stop = u.stop := by
  obtain ⟨ts, ht⟩ := h.reached.takes
  exact ⟨ts, ht.ahead, ht.lastStop_of_start, ht.stop⟩

/-- The current token is one of the stream, or its end, and stands behind all that has been taken. -/
theorem current_cases (h : s.Stands u) : s.lastStop ≤ s.current.span.start ∧
    (s.current ∈ u.ahead ∨ s.kind = .eof ∧ s.current = u.final) := by
  obtain ⟨ts, hahead, hlast, hstop⟩ := h.exists_taken
  rw [hlast]
  cases hrest : s.stream.ahead with
  | nil =>
    have hcurrent : s.current = u.final := by
      unfold State.current TokenStream.head TokenStream.final
      rw [hrest, hstop]
      rfl
    refine ⟨?_, .inr ⟨State.kind_of_left (by rw [State.left, hrest]; rfl), hcurrent⟩⟩
    rw [hcurrent, TokenStream.final, Token.ending, Span.between_of_le h.limit h.limit]
    rw [hrest, List.append_nil] at hahead
    exact stopOf_le fun t ht => (h.placed.inside t (hahead ▸ ht)).2.2
  | cons w rest =>
    rw [State.current_of_cons hrest]
    rw [hrest] at hahead
    have hordered := h.placed.ordered
    rw [hahead] at hordered
    refine ⟨stopOf_le fun t ht => ?_, .inl (hahead ▸ by simp)⟩
    exact (List.pairwise_append.1 hordered).2.2 t ht w List.mem_cons_self

theorem lastStop_le_start (h : s.Stands u) : s.lastStop ≤ s.current.span.start := h.current_cases.1

theorem current_mem (h : s.Stands u) : s.current ∈ u.toList := by
  rcases h.current_cases.2 with hmem | ⟨-, heq⟩
  · exact List.mem_append_left _ hmem
  · rw [heq]
    exact List.mem_append_right _ List.mem_cons_self

/-- The current token runs forwards, and not past the end of the text. -/
theorem current_fits (h : s.Stands u) : s.current.span.Fits u.stop := by
  rcases h.current_cases.2 with hmem | ⟨-, heq⟩
  · obtain ⟨-, hlt, hle⟩ := h.placed.inside _ hmem
    exact ⟨Nat.le_of_lt hlt, hle⟩
  · rw [heq, TokenStream.final, Token.ending, Span.between_of_le h.limit h.limit]
    exact ⟨Nat.le_refl _, Nat.le_refl _⟩

theorem current_aligned (h : s.Stands u) (hk : s.kind ≠ .eof) :
    s.current.span.Aligned u.toList := by
  rcases h.current_cases.2 with hmem | ⟨hend, -⟩
  · exact ⟨(h.placed.inside _ hmem).2.1, ⟨_, h.current_mem, rfl⟩, ⟨_, h.current_mem, rfl⟩⟩
  · exact absurd hend hk

theorem start_le_stop (h : s.Stands u) : s.current.span.start ≤ u.stop :=
  Nat.le_trans h.current_fits.start_le h.current_fits.stop_le

theorem lastStop_le (h : s.Stands u) : s.lastStop ≤ u.stop :=
  Nat.le_trans h.lastStop_le_start h.start_le_stop

/-- If a token has been taken, what was taken last stops where a token stops. -/
theorem exists_stop (h : s.Stands u) (hpos : 0 < s.lastStop) :
    ∃ t ∈ u.toList, t.span.stop = s.lastStop := by
  obtain ⟨ts, hahead, hlast, -⟩ := h.exists_taken
  rw [hlast] at hpos ⊢
  unfold stopOf at hpos ⊢
  cases hend : ts.getLast? with
  | none =>
    rw [hend] at hpos
    exact absurd hpos (Nat.lt_irrefl 0)
  | some t =>
    have hmem : t ∈ u.ahead := hahead ▸ List.mem_append_left _ (List.mem_of_getLast? hend)
    exact ⟨t, List.mem_append_left _ hmem, rfl⟩

/-- From the current token on, what is taken last stops behind where that token starts. -/
theorem start_lt_of_takes (h : s.Stands u) (hne : us ≠ []) (ht : Takes us s (s'.withLog s.log)) :
    s.current.span.start < s'.lastStop := by
  obtain ⟨ts, hahead, -, -⟩ := h.exists_taken
  have hlast : s'.lastStop = stopOf us := ht.lastStop hne
  rw [ht.ahead] at hahead
  cases us with
  | nil => exact absurd rfl hne
  | cons w rest =>
    obtain ⟨hcurrent, -⟩ := ht.uncons
    have hend := List.getLast?_eq_some_getLast (List.cons_ne_nil w rest)
    have hmem := List.getLast_mem (List.cons_ne_nil w rest)
    have hinside : ∀ v ∈ w :: rest, v.span.start < v.span.stop := by
      intro v hv
      have hv' : v ∈ u.ahead := hahead ▸ List.mem_append_right _ (List.mem_append_left _ hv)
      exact (h.placed.inside v hv').2.1
    have hordered : (w :: rest).Pairwise fun a b => a.span.stop ≤ b.span.start := by
      have hall := h.placed.ordered
      rw [hahead] at hall
      exact (List.pairwise_append.1 (List.pairwise_append.1 hall).2.1).1
    have hw := hinside w List.mem_cons_self
    have hv := hinside _ hmem
    rw [hlast, hcurrent, stopOf, hend, Option.map_some, Option.getD_some]
    rcases List.mem_cons.1 hmem with heq | hrest
    · rw [heq]
      exact hw
    · have hbehind := (List.pairwise_cons.1 hordered).1 _ hrest
      omega

/-- What is taken last never stops further in front than before. -/
theorem lastStop_mono (h : s.Stands u) (h' : s.Precedes s') : s.lastStop ≤ s'.lastStop := by
  obtain ⟨us, ht⟩ := h'.takes
  by_cases hne : us = []
  · subst hne
    generalize hafter : s'.withLog s.log = r at ht
    cases ht
    exact Nat.le_of_eq (congrArg State.lastStop hafter).symm
  · have hstart := h.start_lt_of_takes hne ht
    have hlast := h.lastStop_le_start
    omega

/-- A phrase that takes a token stops behind where the current token starts. -/
theorem start_lt_of_run {p : Phrase} (h : s.Stands u) (hr : Run t p s s') (hp : p.least = 1)
    (hk : s.kind ≠ .eof) : s.current.span.start < s'.lastStop := by
  have hpos := State.left_pos hk
  have hless := hr.left_le
  have hleft : s.left = (s.takenTo s').length + s'.left := hr.takes.left
  refine h.start_lt_of_takes (List.ne_nil_of_length_pos ?_) hr.takes
  omega

theorem lastStop_advance (hk : s.kind ≠ .eof) : s.advance.lastStop = s.current.span.stop := by
  rw [State.advance_of_cons (State.ahead_of_kind hk)]
  rfl

theorem start_le_advance (h : s.Stands u) (hk : s.kind ≠ .eof) :
    s.current.span.start ≤ s.advance.lastStop := by
  rw [lastStop_advance hk]
  exact Nat.le_of_lt (h.current_aligned hk).solid

end State.Stands

end Descent

open Descent

variable {P : Prop} {t : Table} {u : TokenStream} {s s' : State} {lo hi : Nat} {ps : List Span}
  {n : Node} {ns ms : List Node} {left : Expr}

namespace Stretch

/-- A token lies between its start and what is taken last once it is taken. -/
theorem token (h : s.Stands u) (hk : P → s.kind ≠ .eof) :
    Stretch P u s.current.span.start s.advance.lastStop [s.current.span] [] := by
  have hspan := span h.current_fits fun hp => h.current_aligned (hk hp)
  exact hspan.upper fun hp => Nat.le_of_eq (State.Stands.lastStop_advance (hk hp)).symm

/-- A node without parts is at the span of its token. -/
theorem leaf (h : s.Stands u) (hk : P → s.kind ≠ .eof)
    (hspan : n.span? = some s.current.span) (hparts : n.parts = []) :
    Stretch P u s.current.span.start s.advance.lastStop [s.current.span] [n] := by
  have hnone : Stretch P u s.current.span.start s.current.span.stop n.parts [] := by
    rw [hparts]
    exact .nil fun hp => Nat.le_of_lt (h.current_aligned (hk hp)).solid
  have hnode := hnone.node hspan h.current_fits fun hp =>
    ⟨h.current_aligned (hk hp), Nat.le_refl _, Nat.le_refl _⟩
  exact hnode.upper fun hp => Nat.le_of_eq (State.Stands.lastStop_advance (hk hp)).symm

/-- A node reaches from an offset to what was taken last. -/
theorem spanFrom {start : Nat} (h : Stretch P u lo s'.lastStop n.parts ns) (hs' : s'.Stands u)
    (hspan : n.span? = some (s'.spanFrom start)) (hstart : start ≤ u.stop)
    (hP : P → start < s'.lastStop ∧ (∃ t ∈ u.toList, t.span.start = start) ∧ start ≤ lo) :
    Stretch P u start s'.lastStop [s'.spanFrom start] (n :: ns) := by
  have hfits : (s'.spanFrom start).Fits u.stop :=
    ⟨Nat.le_max_right _ _, Nat.max_le.2 ⟨hs'.lastStop_le, hstart⟩⟩
  have hstop (hp : P) : (s'.spanFrom start).stop = s'.lastStop :=
    Nat.max_eq_left (Nat.le_of_lt (hP hp).1)
  refine (h.node hspan hfits fun hp => ?_).upper fun hp => Nat.le_of_eq (hstop hp)
  obtain ⟨hlt, hmem, hlo⟩ := hP hp
  rw [hstop hp]
  refine ⟨⟨?_, hmem, ?_⟩, hlo, Nat.le_refl _⟩
  · rw [hstop hp]
    exact hlt
  · rw [hstop hp]
    exact hs'.exists_stop (by omega)

/-- What begins with the current token lies behind all that was taken before. -/
theorem behind (h : Stretch P u s.current.span.start hi ps ns) (hs : s.Stands u) :
    Stretch P u s.lastStop hi ps ns :=
  h.lower fun _ => hs.lastStop_le_start

/-- A node reaches from the current token to what is taken last once it is read. -/
theorem fromCurrent {p : Phrase} (h : Stretch P u s.current.span.start s'.lastStop n.parts ns)
    (hs : s.Stands u) (hr : Run t p s s') (hp : p.least = 1) (hk : P → s.kind ≠ .eof)
    (hspan : n.span? = some (s'.spanFrom s.current.span.start)) :
    Stretch P u s.current.span.start s'.lastStop [s'.spanFrom s.current.span.start] (n :: ns) :=
  h.spanFrom (hs.next hr.precedes) hspan hs.start_le_stop fun hP =>
    ⟨hs.start_lt_of_run hr hp (hk hP), ⟨_, hs.current_mem, rfl⟩, Nat.le_refl _⟩

/-- A node with its own token in front. -/
theorem headed {p : Phrase} (h : Stretch P u s.advance.lastStop s'.lastStop n.parts ns)
    (hs : s.Stands u) (hr : Run t p s s') (hp : p.least = 1) (hk : P → s.kind ≠ .eof)
    (hspan : n.span? = some (s'.spanFrom s.current.span.start)) :
    Stretch P u s.current.span.start s'.lastStop [s'.spanFrom s.current.span.start] (n :: ns) :=
  (h.lower fun hP => hs.start_le_advance (hk hP)).fromCurrent hs hr hp hk hspan

/-- A first operand lies between where the node starts and the token of the node. -/
theorem operand (h : Stretch P u lo s.lastStop left.span?.toList ns) (hs : s.Stands u) :
    Stretch P u (startOf left s.current) s.current.span.start left.span?.toList ns := by
  have hlast := hs.lastStop_le_start
  unfold startOf
  cases hspan : left.span? with
  | none =>
    rw [hspan] at h
    refine ⟨h.fits, h.inside, fun _ => .nil (Nat.le_refl _), h.nests⟩
  | some p =>
    rw [hspan] at h
    refine ⟨h.fits, h.inside, fun hp => ?_, h.nests⟩
    obtain ⟨-, haligned, hhi⟩ := (h.row hp).around
    exact (Row.single haligned).upper (by omega)

/-- Where a node starts that has its first operand before its token. -/
theorem startOf_le (h : Stretch P u lo s.lastStop left.span?.toList ns) (hs : s.Stands u) :
    startOf left s.current ≤ u.stop := by
  unfold startOf
  cases hspan : left.span? with
  | none => exact hs.start_le_stop
  | some p =>
    have hfits := h.fits p (by simp [hspan])
    exact Nat.le_trans hfits.start_le hfits.stop_le

theorem startOf_mem (h : Stretch P u lo s.lastStop left.span?.toList ns) (hs : s.Stands u)
    (hp : P) : lo ≤ startOf left s.current ∧ startOf left s.current ≤ s.current.span.start ∧
      ∃ t ∈ u.toList, t.span.start = startOf left s.current := by
  have hlast := hs.lastStop_le_start
  unfold startOf
  cases hspan : left.span? with
  | none =>
    rw [hspan] at h
    have hle := (h.row hp).le
    exact ⟨by rw [Option.getD_none]; omega, Nat.le_refl _, _, hs.current_mem, rfl⟩
  | some p =>
    rw [hspan] at h
    obtain ⟨hlo, haligned, hhi⟩ := (h.row hp).around
    have hsolid := haligned.solid
    exact ⟨hlo, by rw [Option.getD_some]; omega, haligned.start⟩

/-- A node with its first operand in front. -/
theorem following {p : Phrase} (hleft : Stretch P u lo s.lastStop left.span?.toList ns)
    (h : Stretch P u (startOf left s.current) s'.lastStop n.parts ms) (hs : s.Stands u)
    (hr : Run t p s s') (hp : p.least = 1) (hk : s.kind ≠ .eof)
    (hspan : n.span? = some (s'.spanFrom (startOf left s.current))) :
    Stretch P u lo s'.lastStop [s'.spanFrom (startOf left s.current)] (n :: ms) := by
  have hnode := h.spanFrom (hs.next hr.precedes) hspan (hleft.startOf_le hs) fun hP => by
    obtain ⟨-, hle, hmem⟩ := hleft.startOf_mem hs hP
    exact ⟨Nat.lt_of_le_of_lt hle (hs.start_lt_of_run hr hp hk), hmem, Nat.le_refl _⟩
  exact hnode.lower fun hP => (hleft.startOf_mem hs hP).1

section

variable {s₁ s₂ : State} {power : Power} {right e : Expr} {b : Block} {a : Option Block}
  {names : List Symbol} {es : List Expr} {ss : List Stmt}

/-! What is read for a construct, from what is read for its parts. -/

theorem conditional (he : Run t (.group e) s.advance s₁) (hb : Run t (.block b) s₁ s₂)
    (ha : Run t (.alternative a) s₂ s') (hs : s.Stands u) (hk : s.kind ≠ .eof)
    (hcondition : Stretch P u s.advance.current.span.start s₁.lastStop e.span?.toList e.nodes)
    (hblock : Stretch P u s₁.current.span.start s₂.lastStop [b.span] b.nodes)
    (halternative : Stretch P u s₂.lastStop s'.lastStop (a.toList.map (·.span))
      (a.elim [] Block.nodes)) :
    Stretch P u s.current.span.start s'.lastStop [s'.spanFrom s.current.span.start]
      (Expr.conditional s.current e b a (s'.spanFrom s.current.span.start)).nodes := by
  have hs₁ := hs.next (.advance s)
  have hs₂ := hs₁.next he.precedes
  have hparts := ((hcondition.behind hs₁).append (hblock.behind hs₂)).append halternative
  rw [List.append_assoc, List.singleton_append] at hparts
  rw [Expr.nodes_conditional]
  exact hparts.headed hs (.conditional he hb ha) rfl (fun _ => hk) rfl

theorem function (hn : Run t (.parameters names) (s.advance.expected .openParen) s₁)
    (hb : Run t (.block b) (s₁.expected .closeParen) s') (hs : s.Stands u) (hk : s.kind ≠ .eof)
    (hnames : Stretch P u (s.advance.expected .openParen).lastStop s₁.lastStop
      (names.map (·.span)) [])
    (hblock : Stretch P u (s₁.expected .closeParen).current.span.start s'.lastStop [b.span]
      b.nodes) :
    Stretch P u s.current.span.start s'.lastStop [s'.spanFrom s.current.span.start]
      (Expr.function s.current names b (s'.spanFrom s.current.span.start)).nodes := by
  have hs₁ := hs.next (.advance s)
  have hs₂ := hs₁.next (.expected s.advance .openParen)
  have hs₃ := hs₂.next hn.precedes
  have hopen := hs₁.lastStop_mono (.expected s.advance .openParen)
  have hclose := hs₃.lastStop_mono (.expected s₁ .closeParen)
  have hbehind := hblock.behind (hs₃.next (.expected s₁ .closeParen))
  have hparts := (hnames.upper fun _ => hclose).append hbehind
  exact (hparts.lower fun _ => hopen).headed hs (.function hn hb) rfl (fun _ => hk) rfl

/-- A parenthesis before an expression is no part of its span. -/
theorem group (he : Run t (.expression .lowest e) (s.expected .openParen) s₁) (hs : s.Stands u)
    (hk : P → s.kind ≠ .eof)
    (hin : Stretch P u (s.expected .openParen).current.span.start s₁.lastStop e.span?.toList
      e.nodes) :
    Stretch P u s.current.span.start (s₁.expected .closeParen).lastStop e.span?.toList e.nodes := by
  have hs₁ := hs.next (.expected s .openParen)
  have hclose := (hs₁.next he.precedes).lastStop_mono (.expected s₁ .closeParen)
  have hbehind := hin.behind hs₁
  rw [State.lastStop_expected] at hbehind
  exact (hbehind.lower fun hp => hs.start_le_advance (hk hp)).upper fun _ => hclose

theorem binary (he : Run t (.expression power right) s.advance s') (hs : s.Stands u)
    (hk : s.kind ≠ .eof) (hleft : Stretch P u lo s.lastStop left.span?.toList left.nodes)
    (hright : Stretch P u s.advance.current.span.start s'.lastStop right.span?.toList
      right.nodes) :
    Stretch P u lo s'.lastStop [s'.spanFrom (startOf left s.current)]
      (Expr.binary left s.current right (s'.spanFrom (startOf left s.current))).nodes := by
  have hr : Run t (.following .binary power left _) s s' := .binary he
  have hoperator := token hs fun _ : P => hk
  have hbehind := hright.behind (hs.next (.advance s))
  have hparts := (hleft.operand hs).append (hoperator.append hbehind)
  exact hleft.following hparts hs hr rfl hk rfl

theorem call (ha : Run t (.arguments es) s.advance s₁) (hs : s.Stands u) (hk : s.kind ≠ .eof)
    (hleft : Stretch P u lo s.lastStop left.span?.toList left.nodes)
    (harguments : Stretch P u s.advance.lastStop s₁.lastStop (es.filterMap Expr.span?)
      (Expr.nodesAll es)) :
    Stretch P u lo (s₁.expected .closeParen).lastStop
      [(s₁.expected .closeParen).spanFrom (startOf left s.current)]
      (Expr.call left s.current es
        ((s₁.expected .closeParen).spanFrom (startOf left s.current))).nodes := by
  have hs₁ := hs.next (.advance s)
  -- a call is read alike whatever the power of its parenthesis
  have hr : Run t (.following .call .lowest left _) s (s₁.expected .closeParen) := .call ha
  have hclose := (hs₁.next ha.precedes).lastStop_mono (.expected s₁ .closeParen)
  have hbehind := harguments.lower fun _ => hs.start_le_advance hk
  have hparts := (hleft.operand hs).append (hbehind.upper fun _ => hclose)
  exact hleft.following hparts hs hr rfl hk rfl

theorem block (hb : Run t (.statements ss) (s.expected .openCurly) s₁) (hs : s.Stands u)
    (hk : P → s.kind ≠ .eof)
    (hbody : Stretch P u (s.expected .openCurly).lastStop s₁.lastStop (ss.map Stmt.span)
      (Stmt.nodesAll ss)) :
    Stretch P u s.current.span.start (s₁.expected .closeCurly).lastStop
      [(s₁.expected .closeCurly).spanFrom s.current.span.start]
      (Block.nodes ⟨s.current, ss, (s₁.expected .closeCurly).spanFrom s.current.span.start⟩) := by
  have hs₁ := hs.next (.expected s .openCurly)
  have hclose := (hs₁.next hb.precedes).lastStop_mono (.expected s₁ .closeCurly)
  rw [State.lastStop_expected] at hbody
  exact (hbody.upper fun _ => hclose).headed hs (.block hb) rfl hk rfl

theorem binding
    (he : Run t (.expression .lowest e) ((s.advance.expected .identifier).expected .assign) s₁)
    (hs : s.Stands u) (hk : s.kind ≠ .eof) (hk₁ : P → s.advance.kind ≠ .eof)
    (hvalue : Stretch P u ((s.advance.expected .identifier).expected .assign).current.span.start
      s₁.lastStop e.span?.toList e.nodes) :
    Stretch P u s.current.span.start (s₁.expected .semicolon).lastStop
      [(s₁.expected .semicolon).spanFrom s.current.span.start]
      (Stmt.binding s.current (.ofToken s.advance.current) e
        ((s₁.expected .semicolon).spanFrom s.current.span.start)).nodes := by
  have hs₁ := hs.next (.advance s)
  have hs₂ := hs₁.next (.expected s.advance .identifier)
  have hs₃ := hs₂.next (.expected _ .assign)
  have hname := (token hs₁ hk₁).behind hs₁
  rw [← State.lastStop_expected s.advance .identifier] at hname
  have hassign := hs₂.lastStop_mono (.expected _ .assign)
  have hend := (hs₃.next he.precedes).lastStop_mono (.expected s₁ .semicolon)
  have hbehind := (hvalue.behind hs₃).lower fun _ => hassign
  have hparts := hname.append (hbehind.upper fun _ => hend)
  exact hparts.headed hs (.binding he) rfl (fun _ => hk) rfl

end

end Stretch

namespace Descent

variable {t : Table}

/-- What is read for a phrase lies between where it is begun and what was taken last. What can be
empty is begun behind what was taken before, and anything else with the current token; an extension
is begun where its first operand was. -/
def Phrase.Lies (P : Prop) (u : TokenStream) : Phrase → State → State → Prop
  | .expression _ e, s, s' | .opening _ e, s, s' | .group e, s, s' =>
    Stretch P u s.current.span.start s'.lastStop e.span?.toList e.nodes
  | .extension _ left e, s, s' | .following _ _ left e, s, s' => ∀ lo,
    Stretch P u lo s.lastStop left.span?.toList left.nodes →
      Stretch P u lo s'.lastStop e.span?.toList e.nodes
  | .arguments es, s, s' =>
    Stretch P u s.lastStop s'.lastStop (es.filterMap Expr.span?) (Expr.nodesAll es)
  | .parameters ps, s, s' => Stretch P u s.lastStop s'.lastStop (ps.map (·.span)) []
  | .block b, s, s' => Stretch P u s.current.span.start s'.lastStop [b.span] b.nodes
  | .alternative b, s, s' => Stretch P u s.lastStop s'.lastStop (b.toList.map (·.span))
      (b.elim [] Block.nodes)
  | .returned e, s, s' => Stretch P u s.lastStop s'.lastStop e.span?.toList e.nodes
  | .ruled _ st, s, s' | .statement st, s, s' =>
    Stretch P u s.current.span.start s'.lastStop [st.span] st.nodes
  | .statements ss, s, s' =>
    Stretch P u s.lastStop s'.lastStop (ss.map Stmt.span) (Stmt.nodesAll ss)

/-- A phrase that is called for by a token does not begin at the end of the text. -/
def Phrase.InText (s : State) : Phrase → Prop
  | .opening .. | .following .. | .ruled .. | .statement _ => s.kind ≠ .eof
  | _ => True

/-- **What a run reads lies in order.** -/
theorem Run.lies (ht : t.SparesEnd) {p : Phrase} (h : Run t p s s') (hs : s.Stands u)
    (hk : p.InText s) (hP : P → s'.QuietAtEnd) : p.Lies P u s s' := by
  -- a part is quiet at the end if the whole is, since faults are only added behind it
  induction h with
  | @hole s power h =>
    refine Stretch.nil fun hp => ?_
    have hk : s.kind ≠ .eof :=
      fun hend => hP hp ⟨.noOperand s.current, s.current.span.start⟩ List.mem_cons_self hend
    exact hs.start_le_advance hk
  | expression h ho he iho ihe =>
    have hs₁ := hs.next ho.precedes
    have hfirst := iho hs (kind_ne_eof_of_prefixRule ht h) fun hp => (hP hp).of_suffix he.log_suffix
    exact ihe hs₁ trivial hP _ hfirst
  | literal h =>
    rcases literal_cases h with ⟨n, -, -, rfl, rfl⟩ | ⟨-, -, rfl, rfl⟩ | ⟨-, rfl, rfl⟩ |
      ⟨-, rfl, rfl⟩ | ⟨-, -, -, rfl, rfl⟩
    all_goals exact Stretch.leaf hs (fun _ => hk) rfl rfl
  | @unary s s' e he ih =>
    have hs₁ := hs.next (.advance s)
    have hoperand : Stretch P u s.advance.current.span.start s'.lastStop e.span?.toList e.nodes :=
      ih hs₁ trivial hP
    exact (hoperand.behind hs₁).headed hs (.unary he) rfl (fun _ => hk) rfl
  | opened _ ih => exact ih hs trivial hP
  | conditional he hb ha ihe ihb iha =>
    have hs₁ := hs.next (.advance _)
    have hs₂ := hs₁.next he.precedes
    have hq₂ := fun hp => (hP hp).of_suffix ha.log_suffix
    have hq₁ := fun hp => (hq₂ hp).of_suffix hb.log_suffix
    exact Stretch.conditional he hb ha hs hk (ihe hs₁ trivial hq₁) (ihb hs₂ trivial hq₂)
      (iha (hs₂.next hb.precedes) trivial hP)
  | function hn hb ihn ihb =>
    have hs₂ := (hs.next (.advance _)).next (.expected _ .openParen)
    have hs₄ := (hs₂.next hn.precedes).next (.expected _ .closeParen)
    have hq := fun hp => (hP hp).of_suffix ((State.suffix_expected _ _).trans hb.log_suffix)
    exact Stretch.function hn hb hs hk (ihn hs₂ trivial hq) (ihb hs₄ trivial hP)
  | @group s s₁ e he ih =>
    have hq : P → s₁.QuietAtEnd := fun hp => (hP hp).of_suffix (State.suffix_expected _ _)
    have hk : P → s.kind ≠ .eof := fun hp =>
      ((hq hp).of_suffix he.log_suffix).kind_of_expected (by decide)
    exact Stretch.group he hs hk (ih (hs.next (.expected s .openParen)) trivial hq)
  | stop => exact fun _ hleft => hleft
  | extend h hf he ihf ihe =>
    intro lo hleft
    have hq := fun hp => (hP hp).of_suffix he.log_suffix
    have hmid := ihf hs (kind_ne_eof_of_infixAbove ht h) hq lo hleft
    exact ihe (hs.next hf.precedes) trivial hP lo hmid
  | binary he ih =>
    intro lo hleft
    exact Stretch.binary he hs hk hleft (ih (hs.next (.advance _)) trivial hP)
  | @call s s₁ power left es ha ih =>
    intro lo hleft
    have hq := fun hp => (hP hp).of_suffix (State.suffix_expected _ _)
    exact Stretch.call ha hs hk hleft (ih (hs.next (.advance s)) trivial hq)
  | argumentsEnd => exact Stretch.nil fun _ => Nat.le_refl _
  | comma _ _ ih =>
    have hrest := ih (hs.next (.advance _)) trivial hP
    exact hrest.lower fun _ => hs.lastStop_mono (.advance _)
  | noArgument _ _ he ha ihe iha =>
    have hrest := iha (hs.next he.precedes) trivial hP
    exact hrest.lower fun _ => hs.lastStop_mono he.precedes
  | @argument s s₁ s' e es _ _ _ he ha ihe iha =>
    have hfirst : Stretch P u s.current.span.start s₁.lastStop e.span?.toList e.nodes :=
      ihe hs trivial fun hp => (hP hp).of_suffix ha.log_suffix
    have hspans : (e :: es).filterMap Expr.span? = e.span?.toList ++ es.filterMap Expr.span? := by
      cases hspan : e.span? <;> simp [hspan]
    simp only [Phrase.Lies, hspans]
    exact (hfirst.behind hs).append (iha (hs.next he.precedes) trivial hP)
  | parametersEnd => exact Stretch.nil fun _ => Nat.le_refl _
  | @noParameter s s' ps _ _ _ ih =>
    have hpast := (State.Precedes.expected s .identifier).trans (.passed _ .comma)
    have hrest := ih (hs.next hpast) trivial hP
    exact hrest.lower fun _ => hs.lastStop_mono hpast
  | @parameter s s' ps hi _ ih =>
    have hs₁ := hs.next (.expected s .identifier)
    have hk : s.kind ≠ .eof := by simp [hi]
    have hname := (Stretch.token hs fun _ : P => hk).behind hs
    rw [← State.lastStop_expected s .identifier] at hname
    have hrest : Stretch P u _ s'.lastStop (ps.map (·.span)) [] :=
      ih (hs₁.next (.passed _ .comma)) trivial hP
    exact hname.append (hrest.lower fun _ => hs₁.lastStop_mono (.passed _ .comma))
  | @block s s₁ ss hb ih =>
    have hq : P → s₁.QuietAtEnd := fun hp => (hP hp).of_suffix (State.suffix_expected _ _)
    have hk : P → s.kind ≠ .eof := fun hp =>
      ((hq hp).of_suffix hb.log_suffix).kind_of_expected (by decide)
    exact Stretch.block hb hs hk (ih (hs.next (.expected s .openCurly)) trivial hq)
  | noAlternative => exact Stretch.nil fun _ => Nat.le_refl _
  | @alternative s s' b _ _ ih =>
    have hs₁ := hs.next (.advance s)
    have hblock : Stretch P u s.advance.current.span.start s'.lastStop [b.span] b.nodes :=
      ih hs₁ trivial hP
    exact (hblock.behind hs₁).lower fun _ => hs.lastStop_mono (.advance s)
  | noValue => exact Stretch.nil fun _ => Nat.le_refl _
  | value _ _ ih => exact Stretch.behind (ih hs trivial hP) hs
  | @binding s s₁ e he ih =>
    have hs₂ := (hs.next (.advance s)).next (.expected s.advance .identifier)
    have hq : P → s₁.QuietAtEnd := fun hp => (hP hp).of_suffix (State.suffix_expected _ _)
    have hlog := (State.suffix_expected _ _).trans he.log_suffix
    have hk₁ : P → s.advance.kind ≠ .eof := fun hp =>
      ((hq hp).of_suffix hlog).kind_of_expected (by decide)
    exact Stretch.binding he hs hk hk₁ (ih (hs₂.next (.expected _ .assign)) trivial hq)
  | @returning s s₁ e he ih =>
    have hs₁ := hs.next (.advance s)
    have hvalue : Stretch P u s.advance.lastStop s₁.lastStop e.span?.toList e.nodes :=
      ih hs₁ trivial fun hp => (hP hp).of_suffix (State.suffix_expected _ _)
    have hend := (hs₁.next he.precedes).lastStop_mono (.expected s₁ .semicolon)
    exact (hvalue.upper fun _ => hend).headed hs (.returning he) rfl (fun _ => hk) rfl
  | ruledBlock _ ih => exact Stretch.twice (ih hs trivial hP) rfl rfl
  | @bare s s₁ e he ih =>
    have hvalue : Stretch P u s.current.span.start s₁.lastStop e.span?.toList e.nodes :=
      ih hs trivial fun hp => (hP hp).of_suffix (State.log_passed s₁ _ ▸ List.suffix_rfl)
    have hend := (hs.next he.precedes).lastStop_mono (.passed s₁ .semicolon)
    exact (hvalue.upper fun _ => hend).fromCurrent hs (.bare he) rfl (fun _ => hk) rfl
  | statement _ ih => exact ih hs hk hP
  | statementsEnd => exact Stretch.nil fun _ => Nat.le_refl _
  | @statements s s₁ s' st ss h hst hss ihs ihss =>
    have hfirst : Stretch P u s.current.span.start s₁.lastStop [st.span] st.nodes :=
      ihs hs (kind_ne_eof_of_endsBlock h) fun hp => (hP hp).of_suffix hss.log_suffix
    exact (hfirst.behind hs).append (ihss (hs.next hst.precedes) trivial hP)

/-- The statements of a whole text lie in order. -/
theorem TopRun.lies (ht : t.SparesEnd) {recovery : Recovery} {ss : List Stmt}
    (h : TopRun t recovery ss s s') (hs : s.Stands u) (hP : P → s'.QuietAtEnd) :
    Stretch P u s.lastStop s'.lastStop (ss.map Stmt.span) (Stmt.nodesAll ss) := by
  induction h with
  | done => exact .nil fun _ => Nat.le_refl _
  | @next s s₁ s₂ s' st ss hk hst hr hss ih =>
    have htakes := takes_of_recover hr
    have hlog : s₁.log <:+ s'.log := htakes.log ▸ hss.log_suffix
    have hfirst : Stretch P u s.current.span.start s₁.lastStop [st.span] st.nodes :=
      hst.lies ht hs hk fun hp => (hP hp).of_suffix hlog
    have hs₁ := hs.next hst.precedes
    have hskip : s₁.Precedes s₂ := .of_moves (.of_takes htakes)
    have hrest := (ih (hs₁.next hskip) hP).lower fun _ => hs₁.lastStop_mono hskip
    exact (hfirst.behind hs).append hrest

end Descent

variable {source : String}

/-- The spans of a program and its nodes run forwards, and none past an offset. -/
def Program.Fits (p : Program) (stop : Nat) : Prop :=
  p.span.Fits stop ∧ ∀ n ∈ p.nodes, n.Fits stop

/-- The statements of a program lie in a row inside the program, and so with all nodes below. -/
def Program.Nests (p : Program) (ts : List Token) : Prop :=
  Row ts p.span.start p.span.stop (p.body.map Stmt.span) ∧ ∀ n ∈ p.nodes, n.Nests ts

theorem start_stands (hsize : source.utf8ByteSize ≤ Span.limit) :
    (State.start (Scanner.ofString source).drain).Stands (Scanner.ofString source).drain := by
  have hplaced := drain_ofString_placed hsize
  exact ⟨⟨hplaced.ordered, hplaced.inside, hplaced.start_le, Nat.le_refl _⟩,
    Nat.le_trans hplaced.stop_le hsize, .refl _⟩

/-- **The spans of a program nest.** They run forwards and lie in the text. If no fault is noted at the
end of the text, the parts of every node lie in order and apart inside the node, and all spans below
the program reach from the start of a token to the stop of one. -/
theorem read_nests (hsize : source.utf8ByteSize ≤ Span.limit) (recovery : Recovery) :
    (read source recovery).program.Fits source.utf8ByteSize ∧
      ((∀ d ∈ (read source recovery).diagnostics, d.cause.token.kind ≠ .eof) →
        (read source recovery).program.Nests (tokenize source)) := by
  obtain ⟨s', hrun, hspan, hdiagnostics⟩ := read_run source recovery
  have hstart := start_stands hsize
  have hs' := hstart.next hrun.precedes
  have hstop := (drain_ofString_placed hsize).stop_le
  have hend := hs'.current_fits
  have hlies := hrun.lies Table.standard_sparesEnd hstart
    (P := ∀ d ∈ (read source recovery).diagnostics, d.cause.token.kind ≠ .eof)
    fun hp d hd => hp d (hdiagnostics ▸ List.mem_reverse.2 hd)
  refine ⟨⟨?_, fun n hn => (hlies.inside n hn).mono hstop⟩, fun hp => ⟨?_, hlies.nests hp⟩⟩
  · rw [hspan]
    exact ⟨Nat.zero_le _, Nat.le_trans hend.stop_le hstop⟩
  · rw [hspan]
    exact (hlies.row hp).upper (Nat.le_trans hs'.lastStop_le_start hend.start_le)

/-- Of a sum in parentheses the second operand is missing, and the parenthesis is not closed. The
program, the statements, and what stands below these are at their spans all the same. -/
theorem read_nests_brokenSum :
    "(a + ) * b; c".utf8ByteSize ≤ Span.limit ∧
      (read "(a + ) * b; c" .lenient).diagnostics.map (·.cause.token.text) = [")", ";"] ∧
      (read "(a + ) * b; c" .lenient).program.nodes.map Node.span? =
        [some ⟨0, 11⟩, some ⟨1, 10⟩, some ⟨1, 6⟩, some ⟨1, 2⟩, some ⟨9, 10⟩, some ⟨12, 13⟩,
          some ⟨12, 13⟩] ∧
      (read "(a + ) * b; c" .lenient).program.Nests (tokenize "(a + ) * b; c") := by
  have hsize : "(a + ) * b; c".utf8ByteSize ≤ Span.limit := by decide +kernel
  have hquiet : ∀ d ∈ (read "(a + ) * b; c" .lenient).diagnostics, d.cause.token.kind ≠ .eof := by
    decide +kernel
  obtain ⟨-, hnests⟩ := read_nests hsize .lenient
  exact ⟨hsize, by decide +kernel, by decide +kernel, hnests hquiet⟩

end Monkey

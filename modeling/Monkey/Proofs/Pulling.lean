import Monkey.Proofs.CursorSafety
import Monkey.Proofs.Window

/-!
# Tokens pulled one by one

A cursor at the start of a text yields the tokens of the text one after the other, and behind them
the end over and over, without being moved any more (`Cursor.pull_run`, `Cursor.rests_run`). So the
loop that reads until the end comes (`Cursor.tokens?`) comes to an end and has read all tokens of
the text. Main statement: `Cursor.pulls_tokenize`.
-/

namespace Monkey

/-- At the end of a text a scanner stays in place. -/
theorem Scanner.next_next {s : Scanner} (h : s.next.1.kind = .eof) : s.next.2.next = s.next := by
  cases hread : s.read? with
  | none =>
    have hnext : s.next = (.ending s.skipGap.offset, s.skipGap) := by
      rw [next, hread, Option.getD_none]
    rw [hnext, next, read?_skipGap, hread, Option.getD_none, skipGap_skipGap]
  | some read =>
    rw [next, hread, Option.getD_some] at h
    exact absurd h (kind_ne_eof_of_read? hread)

/-- The token that is read at the end of a stream is its last one. -/
theorem TokenStream.toList_getElem?_min (u : TokenStream) (i : Nat) :
    u.toList[min i (u.toList.length - 1)]? = some (u.get i) := by
  have hlength : u.toList.length - 1 = u.ahead.length := by
    rw [toList, List.length_append, List.length_singleton, Nat.add_sub_cancel]
  rw [hlength, toList, get]
  rcases Nat.lt_or_ge i u.ahead.length with hi | hi
  · rw [Nat.min_eq_left (Nat.le_of_lt hi), List.getElem?_append_left hi, List.getD_eq_getElem?_getD,
      List.getElem?_eq_getElem hi]
    rfl
  · rw [Nat.min_eq_right hi, List.getElem?_append_right (Nat.le_refl _), Nat.sub_self,
      List.getD_eq_getElem?_getD, List.getElem?_eq_none hi]
    rfl

namespace Cursor

variable {c behind : Cursor} {rest : List Char} {t : Token}

/-- A cursor that is not in its text is moved to its end. -/
theorem skipGap_of_lt (h : c.source.utf8ByteSize < c.offset) : c.skipGap.Faces [] := by
  have hremainder : c.remainder = [] := by
    apply List.drop_eq_nil_of_le
    rw [← Text.bytes_toList, Text.length_bytes, Text.width_toList]
    exact Nat.le_of_lt h
  have hskip : c.skipGap = ⟨c.source, c.source.utf8ByteSize⟩ := by
    rw [skipGap, runLength, hremainder, advance]
    congr 1
    exact Nat.min_eq_right (Nat.le_of_lt h)
  rw [hskip]
  exact ⟨c.source.toList, (List.append_nil _).symm, Text.width_toList _⟩

/-- **Progress**: a read takes a cursor further on in its text, unless it reads the end. -/
theorem pull_progress (h : c.pull = (some t, behind)) (hk : t.kind ≠ .eof) :
    behind.source.utf8ByteSize - behind.offset < c.source.utf8ByteSize - c.offset := by
  rcases Nat.lt_or_ge c.source.utf8ByteSize c.offset with hlt | hle
  · have hend := (skipGap_of_lt hlt).takeToken_of_end fun d hd => nomatch hd
    rw [pull, hend] at h
    obtain rfl := Option.some.inj (Prod.mk.inj h).1
    exact absurd rfl hk
  · have hsecure : c.Secure c.source := Within.secure ⟨rfl, hle⟩
    have hread : t ∈ c.pull.1 := by rw [h]; rfl
    have hbehind := (hsecure.lands t hread).1
    have hrises := hsecure.rises t hread hk
    rw [h] at hbehind hrises
    have hbound := hbehind.offset_le
    rw [hbehind.source_eq]
    dsimp only at hrises hbound ⊢
    omega

/-- All tokens from the cursor on, read one by one until the end is read. -/
def tokens? (c : Cursor) : Option (List Token) :=
  match _h : c.pull with
  | (none, _) => none
  | (some t, behind) =>
    if _hk : t.kind = .eof then some [t] else behind.tokens?.map (t :: ·)
termination_by c.source.utf8ByteSize - c.offset
decreasing_by exact pull_progress _h _hk

theorem tokens?_of_eof (h : c.pull = (some t, behind)) (hk : t.kind = .eof) :
    c.tokens? = some [t] := by
  rw [tokens?]
  split
  · next h' => rw [h'] at h; cases h
  · next h' =>
    rw [h'] at h
    cases h
    rw [dif_pos hk]

theorem tokens?_of_ne_eof (h : c.pull = (some t, behind)) (hk : t.kind ≠ .eof) :
    c.tokens? = behind.tokens?.map (t :: ·) := by
  rw [tokens?]
  split
  · next h' => rw [h'] at h; cases h
  · next h' =>
    rw [h'] at h
    cases h
    rw [dif_neg hk]

/-- **The loop reads what a scanner drains.** -/
theorem Faces.tokens? (h : c.Faces rest) :
    c.tokens? = some (Scanner.drain ⟨c.offset, rest⟩).toList := by
  induction hm : rest.length using Nat.strongRecOn generalizing c rest with
  | ind m ih =>
    subst hm
    obtain ⟨hpull, hbehind⟩ := h.pull
    cases hread : Scanner.read? ⟨c.offset, rest⟩ with
    | none =>
      rw [Scanner.next, hread] at hpull
      rw [tokens?_of_eof hpull rfl, Scanner.drain_of_read?_none hread]
      rfl
    | some read =>
      obtain ⟨t, r⟩ := read
      rw [Scanner.next, hread] at hpull hbehind
      rw [hpull] at hbehind
      rw [tokens?_of_ne_eof hpull (Scanner.kind_ne_eof_of_read? hread),
        ih _ (Scanner.read?_rest_length hread) hbehind rfl, Scanner.drain_of_read?_some hread]
      rfl

/-- **The tokens come one after the other**, and the end of the stream over and over. -/
theorem Faces.pull_run (h : c.Faces rest) (k : Nat) :
    (c.run (List.replicate k .next)).pull.1 =
      some ((Scanner.drain ⟨c.offset, rest⟩).get k) := by
  induction k generalizing c rest with
  | zero =>
    rw [TokenStream.get_zero, ← (Scanner.drain_next _).1]
    exact congrArg Prod.fst h.pull.1
  | succ k ih =>
    obtain ⟨hpull, hbehind⟩ := h.pull
    have hoffset : c.pull.2.offset = (Scanner.next ⟨c.offset, rest⟩).2.offset := by rw [hpull]
    have hnext := ih hbehind
    rw [hoffset, (Scanner.drain_next _).2, TokenStream.get_tail] at hnext
    exact hnext

/-- The end is read again at the same place. -/
theorem Faces.rests (h : c.Faces rest) (hk : ∀ t ∈ c.pull.1, t.kind = .eof) :
    c.pull.2.pull = c.pull := by
  obtain ⟨hpull, hbehind⟩ := h.pull
  have heof : (Scanner.next ⟨c.offset, rest⟩).1.kind = .eof := hk _ (by rw [hpull]; rfl)
  have hoffset : c.pull.2.offset = (Scanner.next ⟨c.offset, rest⟩).2.offset := by rw [hpull]
  have hagain := hbehind.pull.1
  rw [hoffset, Scanner.next_next heof] at hagain
  rw [hagain, hpull]

theorem run_succ (c : Cursor) (k : Nat) :
    c.run (List.replicate (k + 1) .next) = (c.run (List.replicate k .next)).pull.2 := by
  rw [run, List.replicate_succ', List.foldl_append]
  rfl

/-- **Reading one by one and reading all at once agree.** The loop comes to an end and has read the
tokens of the text, of which exactly the last one is the end. A token that is read after `k` others
is the one there in the list, or the last one behind them all; and once that was read, the cursor is
moved no more. -/
theorem pulls_tokenize (source : String) :
    (ofString source).tokens? = some (tokenize source) ∧
      (∃ ts stop, tokenize source = ts ++ [.ending stop] ∧ ∀ t ∈ ts, t.kind ≠ .eof) ∧
      ∀ k, ∃ t behind, ((ofString source).run (List.replicate k .next)).pull = (some t, behind) ∧
        (tokenize source)[min k ((tokenize source).length - 1)]? = some t ∧
        ((tokenize source).length ≤ k →
          behind = (ofString source).run (List.replicate k .next)) := by
  have hstart := ofString_faces source
  refine ⟨hstart.tokens?, ⟨_, _, rfl, fun t => Scanner.kind_ne_eof_of_mem_drain⟩, fun k => ?_⟩
  have hnth := hstart.pull_run
  refine ⟨_, _, Prod.ext (hnth k) rfl, TokenStream.toList_getElem?_min _ k, fun hlength => ?_⟩
  -- the read in front of this one has read the end already
  obtain ⟨m, rfl⟩ : ∃ m, k = m + 1 := by
    apply Nat.exists_eq_succ_of_ne_zero
    rintro rfl
    exact absurd (List.length_eq_zero_iff.1 (Nat.le_zero.1 hlength))
      (List.append_ne_nil_of_right_ne_nil _ (List.cons_ne_nil _ _))
  have hahead : (Scanner.ofString source).drain.ahead.length ≤ m := by
    have htokens : (tokenize source).length = (Scanner.ofString source).drain.ahead.length + 1 :=
      List.length_append
    omega
  have hend : ∀ t ∈ ((ofString source).run (List.replicate m .next)).pull.1, t.kind = .eof := by
    intro t ht
    rw [hnth m] at ht
    obtain rfl := Option.some.inj ht
    have hget : (Scanner.ofString source).drain.get m = (Scanner.ofString source).drain.final := by
      rw [TokenStream.get, List.getD_eq_getElem?_getD, List.getElem?_eq_none hahead]
      rfl
    exact congrArg Token.kind hget
  have hreads : ∀ a ∈ List.replicate m Action.next, a = .next := fun _ => List.eq_of_mem_replicate
  obtain ⟨rest, hrest⟩ := hstart.run hreads
  rw [run_succ, hrest.rests hend]

/-- Behind a letter of two bytes a character zero ends the text; five reads stand at it. -/
theorem pulls_tokenize_zero : (tokenize "é \x00x").length ≤ 5 ∧ ∃ t behind,
    ((ofString "é \x00x").run (List.replicate 5 .next)).pull = (some t, behind) ∧
      (tokenize "é \x00x")[1]? = some t ∧ t = ⟨.eof, "", ⟨3, 3⟩⟩ ∧
      behind = (ofString "é \x00x").run (List.replicate 5 .next) := by
  have hlength : (tokenize "é \x00x").length = 2 := by decide +kernel
  obtain ⟨-, -, hpulls⟩ := pulls_tokenize "é \x00x"
  obtain ⟨t, behind, hpull, htoken, hrests⟩ := hpulls 5
  rw [hlength] at htoken hrests
  have hend : (tokenize "é \x00x")[1]? = some ⟨.eof, "", ⟨3, 3⟩⟩ := by decide +kernel
  have ht : t = ⟨.eof, "", ⟨3, 3⟩⟩ := Option.some.inj (htoken.symm.trans hend)
  exact ⟨by omega, t, behind, hpull, htoken, ht, hrests (by decide)⟩

end Cursor

end Monkey

import Monkey.Proofs.Bytewise
import Monkey.Proofs.Tokens

/-!
# Cursors that are moved about

A cursor is moved by reading tokens and by jumps over any number of bytes, in any order
(`Cursor.run`). Whatever was done, it stands in its text: in front of a character or inside one. A
read fails exactly inside a character and then changes nothing; any other read ends in front of a
character again, and further on unless it reads the end of the text (`Cursor.Secure`). Main
statement: `Cursor.run_secure`.
-/

namespace Monkey

/-- Every token but the end takes a scanner further on. -/
theorem Scanner.offset_lt_of_next {s : Scanner} (h : s.next.1.kind ≠ .eof) :
    s.offset < s.next.2.offset := by
  cases hread : s.read? with
  | none =>
    rw [next, hread] at h
    exact absurd rfl h
  | some read =>
    obtain ⟨t, r⟩ := read
    obtain ⟨gap, l, -, hl, -, -, -, hoffset⟩ := read?_cases hread
    have hlexeme : Text.width l.chars ≠ 0 := by
      obtain ⟨c, cs, hchars, -, -⟩ := hl.begins
      rw [hchars, Text.width_cons]
      have hsize := c.utf8Size_pos
      omega
    rw [next, hread, Option.getD_some]
    have hr : s.offset < r.offset := by omega
    exact hr

namespace Cursor

/-- What can be done with a cursor. -/
inductive Action where
  /-- Reads a token. -/
  | next
  /-- Jumps over some bytes. -/
  | advance (bytes : Nat)

/-- The cursor after an action. -/
def act (c : Cursor) : Action → Cursor
  | .next => c.pull.2
  | .advance bytes => c.advance bytes

/-- The cursor after some actions in a row. -/
def run (c : Cursor) (actions : List Action) : Cursor := actions.foldl act c

/-- The cursor stands somewhere in a text. -/
structure Within (c : Cursor) (source : String) : Prop where
  source_eq : c.source = source
  offset_le : c.offset ≤ source.utf8ByteSize

/-- A cursor that stands in a text, and what a read does there. -/
structure Secure (c : Cursor) (source : String) : Prop extends c.Within source where
  /-- A read fails only inside a character. -/
  fails : c.pull.1 = none ↔ c.Inside
  /-- A read that fails changes nothing. -/
  stays : c.Inside → c.pull.2 = c
  /-- Any other read ends in front of a character or at the end of the text, … -/
  lands : ∀ t ∈ c.pull.1, c.pull.2.Within source ∧ ∃ rest, c.pull.2.Faces rest
  /-- … and further on, unless there was nothing more to read. -/
  rises : ∀ t ∈ c.pull.1, t.kind ≠ .eof → c.offset < c.pull.2.offset

variable {c : Cursor} {source : String} {rest : List Char} {actions : List Action}

theorem Faces.within (h : c.Faces rest) : c.Within c.source := by
  obtain ⟨front, hsource, hoffset⟩ := h
  refine ⟨rfl, ?_⟩
  rw [← Text.width_toList, hsource, Text.width_append]
  omega

/-- In front of a character a read never fails. -/
theorem Faces.secure (h : c.Faces rest) : c.Secure c.source := by
  obtain ⟨hpull, hbehind⟩ := h.pull
  have hsource : c.pull.2.source = c.source := by rw [hpull]
  refine ⟨h.within, ?_, ?_, ?_, ?_⟩
  · rw [hpull]
    exact iff_of_false nofun fun hinside => hinside.not_faces rest h
  · exact fun hinside => absurd h (hinside.not_faces rest)
  · exact fun t _ => ⟨hsource ▸ hbehind.within, _, hbehind⟩
  · intro t ht hk
    rw [hpull] at ht ⊢
    obtain rfl := Option.some.inj ht
    exact Scanner.offset_lt_of_next hk

theorem Inside.secure (h : c.Inside) (hc : c.Within source) : c.Secure source := by
  refine ⟨hc, ?_, ?_, ?_, ?_⟩
  · rw [h.pull]
    exact iff_of_true rfl h
  · rw [h.pull]
    exact fun _ => rfl
  · rw [h.pull]
    exact fun t ht => nomatch ht
  · rw [h.pull]
    exact fun t ht => nomatch ht

theorem Within.secure (h : c.Within source) : c.Secure source := by
  obtain rfl := h.source_eq
  rcases faces_or_inside h.offset_le with ⟨rest, hfaces⟩ | hinside
  · exact hfaces.secure
  · exact hinside.secure h

/-- **One action** leaves a cursor in its text. -/
theorem Within.act (h : c.Within source) (a : Action) : (c.act a).Within source := by
  cases a with
  | next =>
    cases hread : c.pull.1 with
    | none =>
      have hstays := h.secure.stays (h.secure.fails.1 hread)
      rw [Cursor.act, hstays]
      exact h
    | some t => exact (h.secure.lands t hread).1
  | advance bytes =>
    obtain rfl := h.source_eq
    exact ⟨rfl, advance_offset_le c bytes⟩

theorem Within.run (h : c.Within source) (actions : List Action) :
    (c.run actions).Within source := by
  induction actions generalizing c with
  | nil => exact h
  | cons a actions ih => exact ih (h.act a)

theorem ofString_faces (source : String) : (ofString source).Faces source.toList := ⟨[], rfl, rfl⟩

/-- **Reading alone** keeps a cursor in front of a character. -/
theorem Faces.run (h : c.Faces rest) (hnext : ∀ a ∈ actions, a = .next) :
    ∃ rest, (c.run actions).Faces rest := by
  induction actions generalizing c rest with
  | nil => exact ⟨rest, h⟩
  | cons a actions ih =>
    obtain ⟨rfl, hactions⟩ := List.forall_mem_cons.1 hnext
    exact ih h.pull.2 hactions

/-- **A cursor is secure**, wherever reads and jumps have taken it; where there were only reads, the
next one does not fail. -/
theorem run_secure (source : String) (actions : List Action) :
    ((ofString source).run actions).Secure source ∧
      ((∀ a ∈ actions, a = .next) → ((ofString source).run actions).pull.1 ≠ none) := by
  have hfaces := ofString_faces source
  have hsecure := (hfaces.within.run actions).secure
  refine ⟨hsecure, fun hnext hfails => ?_⟩
  obtain ⟨rest, hrest⟩ := hfaces.run hnext
  exact (hsecure.fails.1 hfails).not_faces rest hrest

/-- A jump to the middle of a letter of two bytes, after which a read does nothing; and two reads in
a row, behind which the text is at its end. The first of them takes the letter, and the second one
the mark behind it. -/
theorem run_secure_letter :
    ((ofString "é=").run [.advance 1]).Inside ∧
      ((ofString "é=").run [.advance 1, .next]).offset = 1 ∧
      (∀ a ∈ [Action.next, .next], a = .next) ∧
      ((ofString "é=").run [.next, .next]).pull.1 ≠ none ∧
      ((ofString "é=").run [.next]).offset = 2 ∧
      ((ofString "é=").run [.next]).pull.1 = some ⟨.assign, "=", ⟨2, 3⟩⟩ ∧
      ((ofString "é=").run [.next]).offset < ((ofString "é=").run [.next, .next]).offset := by
  have hinside : ((ofString "é=").run [.advance 1]).Inside :=
    ⟨[], 'é', ['='], by decide, by decide, by decide⟩
  have hstays := (run_secure "é=" [.advance 1]).1.stays hinside
  have hnext : ∀ a ∈ [Action.next, .next], a = .next := by simp
  have hmark : ((ofString "é=").run [.next]).pull.1 = some ⟨.assign, "=", ⟨2, 3⟩⟩ := by
    decide +kernel
  have hrises := (run_secure "é=" [.next]).1.rises _ hmark (by decide)
  refine ⟨hinside, ?_, hnext, (run_secure "é=" [.next, .next]).2 hnext, by decide +kernel, hmark,
    hrises⟩
  exact congrArg Cursor.offset hstays

end Cursor

end Monkey

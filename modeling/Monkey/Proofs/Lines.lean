import Monkey.Proofs.Bytes
import Monkey.Source.Line

/-!
# The line of an offset

One law for the line in which an offset lies, told by the bytes of the text (`Line.Tells`): it
begins behind the last newline before the offset and ends with the next one. Wherever a text is cut
in front of a line, that line obeys the law (`Line.tells_of_cut`). So does the piece of the text
that holds an offset (`Line.locate?_tells`), and so does the line at the end of the text, whose
number is not the same in each of its cases (`Line.last_tells`). Main statement: `Line.find?_tells`.
-/

namespace Monkey

/-- The byte of a newline. -/
def Text.newline : UInt8 := 0x0a

namespace Line

open Text

/-- The line that holds an offset begins here: behind the last newline in front of the offset, or at
the start of the text if there is none. -/
structure Begins (bytes : List UInt8) (offset start : Nat) : Prop where
  le : start ≤ offset
  behind : start = 0 ∨ bytes[start - 1]? = some newline
  clear : ∀ i, start ≤ i → i < offset → bytes[i]? ≠ some newline

/-- What a line tells of an offset in a text of these bytes, if it begins at a given one. -/
structure Tells (l : Line) (bytes : List UInt8) (offset start : Nat) : Prop where
  begins : Begins bytes offset start
  number : l.number = 1 + (bytes.take offset).count newline
  column : l.column = offset - start
  /-- The text goes on through the next newline, or to the end if there is none. -/
  text : Text.bytes l.text = (bytes.drop start).take ((bytes.drop start).idxOf newline + 1)

variable {cs before body behind : List Char} {offset : Nat}

theorem newline_mem_bytes : newline ∈ bytes cs ↔ '\n' ∈ cs := by
  have hcount := count_bytes (b := newline) (by decide) cs
  rw [← List.count_pos_iff, ← List.count_pos_iff, hcount]
  rfl

/-- **A line that is cut out of a text** in front of a newline and behind one obeys the law. -/
theorem tells_of_cut {column : Nat} (hbefore : ∀ c ∈ before.getLast?, c = '\n')
    (hbody : '\n' ∉ body) (hbehind : ∀ c ∈ behind.head?, c = '\n')
    (hcolumn : column ≤ width body) :
    Tells ⟨1 + before.count '\n', body ++ behind.take 1, column⟩
      (bytes (before ++ (body ++ behind))) (width before + column) (width before) := by
  have hbytes : bytes (before ++ (body ++ behind)) =
      bytes before ++ (bytes body ++ bytes behind) := by
    rw [bytes_append, bytes_append]
  have hdrop : (bytes (before ++ (body ++ behind))).drop (width before) =
      bytes body ++ bytes behind := by
    rw [hbytes, ← length_bytes before, List.drop_left]
  have hnobody : newline ∉ bytes body := fun hmem => hbody (newline_mem_bytes.1 hmem)
  refine ⟨⟨Nat.le_add_right _ _, ?_, ?_⟩, ?_, ?_, ?_⟩
  · cases hlast : before.getLast? with
    | none =>
      rw [List.getLast?_eq_none_iff.1 hlast]
      exact .inl rfl
    | some c =>
      obtain ⟨front, rfl⟩ := List.getLast?_eq_some_iff.1 hlast
      obtain rfl := hbefore c hlast
      right
      have hindex : width (front ++ ['\n']) - 1 = (bytes front).length := by
        rw [width_append, length_bytes]
        rfl
      rw [hbytes, hindex, bytes_append, List.append_assoc,
        List.getElem?_append_right (Nat.le_refl _), Nat.sub_self]
      rfl
  · intro i hi hoffset
    have hlt : i - width before < (bytes body).length := by
      rw [length_bytes]
      omega
    rw [hbytes, List.getElem?_append_right (by rwa [length_bytes]), length_bytes,
      List.getElem?_append_left hlt]
    exact fun hget => hnobody (List.mem_of_getElem? hget)
  · have htake : (bytes (before ++ (body ++ behind))).take (width before + column) =
        bytes before ++ (bytes body).take column := by
      rw [hbytes, ← length_bytes before, List.take_length_add_append,
        List.take_append_of_le_length (by rwa [length_bytes])]
    have hcount := count_bytes (b := newline) (by decide) before
    have hnone : newline ∉ (bytes body).take column :=
      fun hmem => hnobody (List.mem_of_mem_take hmem)
    rw [htake, List.count_append, hcount, List.count_eq_zero.2 hnone]
    rfl
  · exact (Nat.add_sub_cancel_left _ _).symm
  · rw [hdrop, List.idxOf_append, if_neg hnobody, bytes_append]
    cases behind with
    | nil =>
      have hall : (bytes body ++ bytes []).length ≤
          (bytes []).idxOf newline + (bytes body).length + 1 := by
        rw [bytes_nil, List.append_nil]
        omega
      rw [List.take_of_length_le hall]
      rfl
    | cons c behind =>
      obtain rfl := hbehind c rfl
      have hfirst : (bytes ('\n' :: behind)).idxOf newline = 0 := rfl
      rw [hfirst, Nat.zero_add, List.take_length_add_append]
      rfl

/-- An offset lies in one line only. -/
theorem Begins.unique {bytes : List UInt8} {start start' : Nat} (h : Begins bytes offset start)
    (h' : Begins bytes offset start') : start' ≤ start := by
  apply Nat.le_of_not_lt
  intro hlt
  -- the newline in front of the later start would stand inside the line that begins earlier
  have hle := h'.le
  rcases h'.behind with hzero | hnewline
  · omega
  · exact h.clear (start' - 1) (by omega) (by omega) hnewline

/-- The law leaves no choice: it is obeyed by one line. -/
theorem Tells.unique {l l' : Line} {bytes : List UInt8} {start start' : Nat}
    (h : l.Tells bytes offset start) (h' : l'.Tells bytes offset start') : l' = l := by
  obtain rfl : start = start' :=
    Nat.le_antisymm (h'.begins.unique h.begins) (h.begins.unique h'.begins)
  obtain ⟨-, hnumber, hcolumn, htext⟩ := h
  obtain ⟨-, hnumber', hcolumn', htext'⟩ := h'
  cases l
  cases l'
  rw [Line.mk.injEq]
  exact ⟨hnumber'.trans hnumber.symm, bytes_injective (htext'.trans htext.symm),
    hcolumn'.trans hcolumn.symm⟩

/-- A text is cut in front of its first newline. -/
theorem cut_first (cs : List Char) : ∃ body behind, cs = body ++ behind ∧ '\n' ∉ body ∧
    ∀ c ∈ behind.head?, c = '\n' := by
  by_cases h : '\n' ∈ cs
  · obtain ⟨body, behind, rfl, hbody⟩ := List.eq_append_cons_of_mem h
    exact ⟨body, '\n' :: behind, rfl, hbody, fun c hc => (Option.some.inj hc).symm⟩
  · exact ⟨cs, [], (List.append_nil cs).symm, h, fun c hc => nomatch hc⟩

theorem pieces_of_newline (h : '\n' ∉ body) (cs : List Char) :
    pieces (body ++ '\n' :: cs) = (body ++ ['\n']) :: pieces cs := by
  induction body with
  | nil => rfl
  | cons c body ih =>
    have hc : c ≠ '\n' := (List.ne_of_not_mem_cons h).symm
    rw [List.cons_append, pieces, if_neg hc, ih (List.not_mem_of_not_mem_cons h)]
    rfl

theorem pieces_of_notMem (h : '\n' ∉ body) (hne : body ≠ []) : pieces body = [body] := by
  induction body with
  | nil => exact absurd rfl hne
  | cons c body ih =>
    have hc : c ≠ '\n' := (List.ne_of_not_mem_cons h).symm
    rw [pieces, if_neg hc]
    cases body with
    | nil => rfl
    | cons d body => rw [ih (List.not_mem_of_not_mem_cons h) (List.cons_ne_nil d body)]

/-- **The search for a piece**: it finds one exactly if the offset does not lie past the text, and
the piece that it finds obeys the law. -/
theorem locate?_tells (cs : List Char) (hbefore : ∀ c ∈ before.getLast?, c = '\n')
    (hle : width before ≤ offset) :
    (offset < width (before ++ cs) →
      ∃ l ∈ locate? (1 + before.count '\n') (width before) offset (pieces cs),
        ∃ start, l.Tells (bytes (before ++ cs)) offset start) ∧
    (width (before ++ cs) ≤ offset →
      locate? (1 + before.count '\n') (width before) offset (pieces cs) = none) := by
  induction hm : cs.length using Nat.strongRecOn generalizing before cs with
  | ind m ih =>
    subst hm
    obtain ⟨body, behind, rfl, hbody, hbehind⟩ := cut_first cs
    have hfound : offset - width before ≤ width body →
        Tells ⟨1 + before.count '\n', body ++ behind.take 1, offset - width before⟩
          (bytes (before ++ (body ++ behind))) offset (width before) := by
      intro hcolumn
      have htells := tells_of_cut hbefore hbody hbehind hcolumn
      rwa [Nat.add_sub_cancel' hle] at htells
    cases behind with
    | nil =>
      rw [List.append_nil] at hfound ⊢
      by_cases hne : body = []
      · subst hne
        rw [List.append_nil]
        exact ⟨fun hlt => absurd hle (Nat.not_le_of_lt hlt), fun _ => rfl⟩
      rw [pieces_of_notMem hbody hne, width_append, locate?]
      by_cases hlt : offset < width before + width body
      · rw [if_pos ⟨hle, hlt⟩]
        have htells := hfound (by omega)
        rw [List.take_nil, List.append_nil] at htells
        exact ⟨fun _ => ⟨_, rfl, _, htells⟩, fun hge => absurd hlt (Nat.not_lt_of_le hge)⟩
      · rw [if_neg fun h => hlt h.2]
        exact ⟨fun h => absurd h hlt, fun _ => rfl⟩
    | cons c behind =>
      obtain rfl := hbehind c rfl
      have hline : width (body ++ ['\n']) = width body + 1 := by
        rw [width_append]
        rfl
      rw [pieces_of_newline hbody, locate?]
      by_cases hlt : offset < width before + width (body ++ ['\n'])
      · rw [if_pos ⟨hle, hlt⟩]
        have htells := hfound (by omega)
        refine ⟨fun _ => ⟨_, rfl, _, htells⟩, fun hge => ?_⟩
        rw [width_append, width_append, width_cons] at hge
        have hsize : '\n'.utf8Size = 1 := rfl
        omega
      · rw [if_neg fun h => hlt h.2]
        -- the next piece begins behind the newline
        have hnext : before ++ (body ++ '\n' :: behind) = before ++ (body ++ ['\n']) ++ behind := by
          simp
        have hnumber : 1 + before.count '\n' + 1 =
            1 + (before ++ (body ++ ['\n'])).count '\n' := by
          rw [List.count_append, List.count_append, List.count_eq_zero.2 hbody]
          rfl
        have hlast : ∀ c ∈ (before ++ (body ++ ['\n'])).getLast?, c = '\n' := by
          intro c hc
          rw [← List.append_assoc, List.getLast?_concat] at hc
          exact (Option.some.inj hc).symm
        rw [hnext, hnumber, ← width_append]
        exact ih behind.length (by simp; omega) behind hlast (by rw [width_append]; omega) rfl

/-- Wherever a text is cut in front of a line and behind it, that line is found. -/
theorem find?_of_cut {source : String} {column : Nat}
    (hsource : source.toList = before ++ (body ++ behind))
    (hbefore : ∀ c ∈ before.getLast?, c = '\n') (hbody : '\n' ∉ body)
    (hbehind : ∀ c ∈ behind.head?, c = '\n') (hcolumn : column < width body) :
    find? source (width before + column) =
      some ⟨1 + before.count '\n', body ++ behind.take 1, column⟩ := by
  have hcut := tells_of_cut hbefore hbody hbehind (Nat.le_of_lt hcolumn)
  rw [← hsource] at hcut
  have hsize : width before + column < width source.toList := by
    rw [hsource, width_append, width_append]
    omega
  have hfront : ∀ c ∈ ([] : List Char).getLast?, c = '\n' := fun c hc => nomatch hc
  -- in front of the end of the text the line is a piece
  obtain ⟨l, hl, start, htells⟩ := (locate?_tells source.toList hfront (Nat.zero_le _)).1 hsize
  have hlocate : locate? 1 0 (width before + column) (pieces source.toList) = some l := hl
  rw [width_toList] at hsize
  rw [find?, if_neg (Nat.not_lt_of_lt hsize), hlocate, Option.getD_some, hcut.unique htells]

/-- There is a piece for each newline, and one for what stands behind the last one. -/
theorem length_pieces (hbefore : ∀ c ∈ before.getLast?, c = '\n') (hbody : '\n' ∉ body) :
    (pieces (before ++ body)).length = before.count '\n' + if body = [] then 0 else 1 := by
  induction hm : before.length using Nat.strongRecOn generalizing before with
  | ind m ih =>
    subst hm
    obtain ⟨line, behind, rfl, hline, hbehind⟩ := cut_first before
    cases behind with
    | nil =>
      -- without a newline nothing can stand before the last line
      have hnil : line = [] := by
        cases hlast : line.getLast? with
        | none => exact List.getLast?_eq_none_iff.1 hlast
        | some c =>
          rw [List.append_nil] at hbefore
          obtain rfl := hbefore c hlast
          exact absurd (List.mem_of_getLast? hlast) hline
      subst hnil
      rw [List.nil_append, List.nil_append, List.count_nil, Nat.zero_add]
      split
      · next hempty => rw [hempty]; rfl
      · next hne => rw [pieces_of_notMem hbody hne]; rfl
    | cons c behind =>
      obtain rfl := hbehind c rfl
      have hrest : ∀ c ∈ behind.getLast?, c = '\n' := by
        intro c hc
        apply hbefore c
        rw [List.getLast?_append, List.getLast?_cons, hc]
        rfl
      rw [List.append_assoc, List.cons_append, pieces_of_newline hline, List.length_cons,
        ih _ (by simp; omega) hrest rfl, List.count_append, List.count_cons_self,
        List.count_eq_zero.2 hline]
      omega

theorem behindNewline?_of_notMem (h : '\n' ∉ body) : behindNewline? body = none := by
  induction body with
  | nil => rfl
  | cons c body ih =>
    have hc : c ≠ '\n' := (List.ne_of_not_mem_cons h).symm
    rw [behindNewline?, ih (List.not_mem_of_not_mem_cons h), if_neg hc]
    rfl

theorem behindNewline?_append (h : '\n' ∉ body) (front : List Char) :
    behindNewline? (front ++ '\n' :: body) = some body := by
  induction front with
  | nil =>
    rw [List.nil_append, behindNewline?, behindNewline?_of_notMem h]
    rfl
  | cons c front ih =>
    rw [List.cons_append, behindNewline?, ih]
    rfl

/-- **The line at the end of a text** obeys the law. -/
theorem last_tells (cs : List Char) :
    ∃ start, (last (1 + (pieces cs).length) cs).Tells (bytes cs) (width cs) start := by
  have hnil : ∀ c ∈ ([] : List Char).head?, c = '\n' := fun c hc => nomatch hc
  by_cases hnewline : '\n' ∈ cs
  · -- the last newline is the first one from behind
    obtain ⟨body, front, hreverse, hbody⟩ :=
      List.eq_append_cons_of_mem (List.mem_reverse.2 hnewline)
    have hcs : cs = front.reverse ++ ['\n'] ++ body.reverse := by
      rw [← List.reverse_reverse cs, hreverse]
      simp
    rw [← List.mem_reverse] at hbody
    have hbefore : ∀ c ∈ (front.reverse ++ ['\n']).getLast?, c = '\n' := by
      intro c hc
      rw [List.getLast?_concat] at hc
      exact (Option.some.inj hc).symm
    have htells := tells_of_cut hbefore hbody hnil (Nat.le_refl (width body.reverse))
    rw [List.take_nil, List.append_nil, ← width_append, ← hcs] at htells
    have hbehind : behindNewline? cs = some body.reverse := by
      rw [hcs, List.append_assoc]
      exact behindNewline?_append hbody _
    have hlength := length_pieces hbefore hbody
    rw [← hcs] at hlength
    refine ⟨width (front.reverse ++ ['\n']), ?_⟩
    rw [last, hbehind, hlength]
    -- one piece more than there are newlines, unless nothing stands behind the last one
    cases hempty : body.reverse with
    | nil =>
      rw [hempty] at htells
      exact htells
    | cons c line =>
      rw [hempty] at htells
      exact htells
  · have hfront : ∀ c ∈ ([] : List Char).getLast?, c = '\n' := fun c hc => nomatch hc
    have htells := tells_of_cut hfront hnewline hnil (Nat.le_refl (width cs))
    rw [List.take_nil, List.append_nil, List.nil_append, width_nil, Nat.zero_add] at htells
    refine ⟨0, ?_⟩
    rw [last, behindNewline?_of_notMem hnewline]
    exact htells

/-- What is found obeys the law. -/
theorem tells_of_find? {source : String} {l : Line} (hl : find? source offset = some l) :
    ∃ start, l.Tells source.toUTF8.data.toList offset start := by
  have hwidth := width_toList source
  rw [← bytes_toList]
  unfold find? at hl
  split at hl
  · cases hl
  obtain rfl := Option.some.inj hl
  have hfront : ∀ c ∈ ([] : List Char).getLast?, c = '\n' := fun c hc => nomatch hc
  obtain ⟨hinside, hend⟩ := locate?_tells source.toList hfront (Nat.zero_le offset)
  rcases Nat.lt_or_ge offset source.utf8ByteSize with hlt | hge
  · obtain ⟨l, hl, htells⟩ := hinside (by rwa [List.nil_append, hwidth])
    have hlocate : locate? 1 0 offset (pieces source.toList) = some l := hl
    rw [hlocate]
    exact htells
  · have hlocate : locate? 1 0 offset (pieces source.toList) = none :=
      hend (by rwa [List.nil_append, hwidth])
    obtain rfl : offset = width source.toList := by omega
    rw [hlocate]
    exact last_tells source.toList

/-- There are no more lines in front of an offset than bytes. -/
theorem number_le_of_find? {source : String} {l : Line} (hl : find? source offset = some l) :
    l.number ≤ 1 + offset := by
  obtain ⟨start, htells⟩ := tells_of_find? hl
  rw [htells.number]
  exact Nat.add_le_add_left (Nat.le_trans List.count_le_length (List.length_take_le _ _)) 1

/-- **The line of an offset** is found exactly if the offset does not lie past the text, and then it
is told by the bytes of the text: wherever the offset lies, also at the end of the text, in an empty
line or inside a character. -/
theorem find?_tells (source : String) (offset : Nat) :
    (find? source offset = none ↔ source.utf8ByteSize < offset) ∧
      ∀ l ∈ find? source offset, ∃ start, l.Tells source.toUTF8.data.toList offset start := by
  refine ⟨?_, fun l hl => tells_of_find? hl⟩
  rw [find?]
  split
  · next hpast => exact iff_of_true rfl hpast
  · next hinside => exact iff_of_false nofun hinside

/-- An offset inside a letter of two bytes, and the end of the text behind a last newline. -/
theorem find?_tells_letter :
    (⟨2, ['é', '\n'], 1⟩ : Line) ∈ find? "a\né\n" 3 ∧ (⟨3, [], 0⟩ : Line) ∈ find? "a\né\n" 5 ∧
      (∃ start, Tells ⟨2, ['é', '\n'], 1⟩ "a\né\n".toUTF8.data.toList 3 start) ∧
      ∃ start, Tells ⟨3, [], 0⟩ "a\né\n".toUTF8.data.toList 5 start := by
  have hletter : (⟨2, ['é', '\n'], 1⟩ : Line) ∈ find? "a\né\n" 3 := by decide +kernel
  have hend : (⟨3, [], 0⟩ : Line) ∈ find? "a\né\n" 5 := by decide +kernel
  exact ⟨hletter, hend, (find?_tells _ 3).2 _ hletter, (find?_tells _ 5).2 _ hend⟩

end Line

end Monkey

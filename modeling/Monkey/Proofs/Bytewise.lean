import Monkey.Proofs.Bytes
import Monkey.Proofs.Splitting
import Monkey.Source.Cursor

/-!
# Reading byte by byte

A cursor looks at single bytes, and yet it reads what a scanner reads. In front of a character
(`Cursor.Faces`) the byte at the cursor is that character, or both are at least 128 and belong to no
class that the cursor asks for; so each way to read a token applies where it should, and takes whole
characters (`Cursor.Faces.pull`). Inside a character (`Cursor.Inside`) no way applies, and the
cursor stays where it is (`Cursor.Inside.pull`).
-/

namespace Monkey

open Lexeme

section Classes

variable {c d : Char} {k : Kind}

theorem Kind.toNat_lt_of_ofMark? (h : Kind.ofMark? c ≠ none) : c.toNat < 128 := by
  unfold Kind.ofMark? at h
  split at h <;> first | decide | exact absurd rfl h

theorem Kind.ofMark?_eq_none_of_le (h : 128 ≤ c.toNat) : Kind.ofMark? c = none := by
  cases hmark : Kind.ofMark? c with
  | none => rfl
  | some k =>
    have hlt : c.toNat < 128 := toNat_lt_of_ofMark? (by simp [hmark])
    omega

theorem Kind.toNat_lt_of_ofPair? (h : Kind.ofPair? c d = some k) :
    c.toNat < 128 ∧ d.toNat < 128 :=
  ⟨toNat_lt_of_ofMark? (ofMark?_ne_none_of_ofPair? h),
    toNat_lt_of_ofMark? (ofMark?_second_ne_none h)⟩

theorem Kind.ofPair?_eq_none_of_le (h : 128 ≤ c.toNat ∨ 128 ≤ d.toNat) :
    Kind.ofPair? c d = none := by
  cases hpair : Kind.ofPair? c d with
  | none => rfl
  | some k =>
    obtain ⟨hc, hd⟩ := toNat_lt_of_ofPair? hpair
    omega

theorem toNat_lt_of_isGap (c : Char) (h : isGap c = true) : c.toNat < 128 := by
  simp only [isGap, Bool.or_eq_true, beq_iff_eq] at h
  rcases h with ((rfl | rfl) | rfl) | rfl <;> decide

theorem toNat_lt_of_isDigit (c : Char) (h : c.isDigit = true) : c.toNat < 128 := by
  obtain ⟨-, hnine⟩ := Char.isDigit_iff_toNat.1 h
  have h57 : '9'.toNat = 57 := rfl
  omega

theorem toNat_lt_of_isAlpha (c : Char) (h : c.isAlpha = true) : c.toNat < 128 := by
  rcases Bool.or_eq_true_iff.1 h with h | h
  · have hZ : c.toNat ≤ 'Z'.toNat := UInt32.le_iff_toNat_le.1 (of_decide_eq_true h).2
    have h90 : 'Z'.toNat = 90 := rfl
    omega
  · have hz : c.toNat ≤ 'z'.toNat :=
      UInt32.le_iff_toNat_le.1 (of_decide_eq_true (Bool.and_eq_true_iff.1 h).2)
    have h122 : 'z'.toNat = 122 := rfl
    omega

end Classes

namespace Cursor

/-- The cursor stands in front of the rest of its text. -/
def Faces (c : Cursor) (rest : List Char) : Prop :=
  ∃ front, c.source.toList = front ++ rest ∧ Text.width front = c.offset

/-- The cursor stands behind the first byte of a character and in front of its end. -/
def Inside (c : Cursor) : Prop :=
  ∃ front d behind, c.source.toList = front ++ d :: behind ∧ Text.width front < c.offset ∧
    c.offset < Text.width front + d.utf8Size

variable {c : Cursor} {rest part behind ds : List Char} {d : Char} {p : Char → Bool}

theorem byteAfter_eq_getD (c : Cursor) (places : Nat) :
    c.byteAfter places = c.remainder.getD places 0 := by
  rw [remainder, byteAfter, List.getD_eq_getElem?_getD, List.getElem?_drop, Array.getElem?_toList,
    Array.getD_eq_getD_getElem?]

namespace Faces

theorem remainder (h : c.Faces rest) : c.remainder = Text.bytes rest := by
  obtain ⟨front, hsource, hoffset⟩ := h
  rw [Cursor.remainder, ← Text.bytes_toList, hsource, Text.bytes_append, ← hoffset,
    ← Text.length_bytes, List.drop_left]

theorem byteAfter (h : c.Faces rest) (places : Nat) :
    c.byteAfter places = (Text.bytes rest).getD places 0 := by
  rw [byteAfter_eq_getD, h.remainder]

theorem advance (h : c.Faces (part ++ behind)) :
    c.advance (Text.width part) = ⟨c.source, c.offset + Text.width part⟩ ∧
      (c.advance (Text.width part)).Faces behind := by
  obtain ⟨front, hsource, hoffset⟩ := h
  have hsize : c.offset + Text.width part ≤ c.source.utf8ByteSize := by
    rw [← Text.width_toList, hsource, Text.width_append, Text.width_append, hoffset]
    omega
  have hadvance : c.advance (Text.width part) = ⟨c.source, c.offset + Text.width part⟩ := by
    rw [Cursor.advance, Nat.min_eq_left hsize]
  refine ⟨hadvance, front ++ part, ?_, ?_⟩
  · rw [advance_source, hsource, List.append_assoc]
  · rw [hadvance, Text.width_append, hoffset]

/-- Whole characters can be taken. -/
theorem take (h : c.Faces (part ++ behind)) (kind : String → Kind) :
    c.take kind (Text.width part) =
      (some (placed ⟨kind (String.ofList part), part⟩ c.offset),
        ⟨c.source, c.offset + Text.width part⟩) := by
  have hadvance := h.advance.1
  obtain ⟨front, hsource, hoffset⟩ := h
  have hslice : Text.slice? c.offset (Text.width part) c.source.toList = some part :=
    Text.slice?_eq_some_iff.2 ⟨front, behind, hsource, hoffset, rfl⟩
  rw [Cursor.take, hslice, hadvance]
  rfl

theorem runLength (h : c.Faces rest) (hp : ∀ d, p d = true → d.toNat < 128) :
    c.runLength p = Text.width (rest.takeWhile p) := by
  rw [Cursor.runLength, h.remainder, Text.takeWhile_bytes hp, Text.length_bytes]

theorem skipGap (h : c.Faces rest) :
    c.skipGap = ⟨c.source, (Scanner.skipGap ⟨c.offset, rest⟩).offset⟩ ∧
      c.skipGap.Faces (rest.dropWhile isGap) := by
  have hlength := h.runLength toNat_lt_of_isGap
  rw [← List.takeWhile_append_dropWhile (p := isGap) (l := rest)] at h
  rw [Cursor.skipGap, hlength]
  exact h.advance

/-- The byte at the cursor is the first character, or both are of no class. -/
theorem charAfter_zero (h : c.Faces (d :: ds)) :
    c.charAfter 0 = d ∨ 128 ≤ (c.charAfter 0).toNat ∧ 128 ≤ d.toNat := by
  obtain ⟨b, bs, hbytes, hb⟩ := Text.head_bytes d ds
  rw [charAfter, h.byteAfter, hbytes]
  exact hb

/-- The byte behind the one at the cursor is the second character, or both are of no class. -/
theorem charAfter_one {e : Char} (h : c.Faces (d :: e :: ds)) (hd : d.toNat < 128) :
    c.charAfter 1 = e ∨ 128 ≤ (c.charAfter 1).toNat ∧ 128 ≤ e.toNat := by
  obtain ⟨b, bs, hbytes, hb⟩ := Text.head_bytes e ds
  rw [charAfter, h.byteAfter, Text.bytes_cons, Text.utf8EncodeChar_of_lt hd, hbytes]
  exact hb

theorem ofMark?_charAfter (h : c.Faces (d :: ds)) :
    Kind.ofMark? (c.charAfter 0) = Kind.ofMark? d := by
  rcases h.charAfter_zero with hd | ⟨hbyte, hd⟩
  · rw [hd]
  · rw [Kind.ofMark?_eq_none_of_le hbyte, Kind.ofMark?_eq_none_of_le hd]

theorem ofPair?_charAfter (h : c.Faces (d :: ds)) :
    Kind.ofPair? (c.charAfter 0) (c.charAfter 1) = ds.head?.bind (Kind.ofPair? d) := by
  rcases h.charAfter_zero with hd | ⟨hbyte, hd⟩
  · rw [hd]
    by_cases hsmall : d.toNat < 128
    · cases ds with
      | nil =>
        have hzero : c.charAfter 1 = '\x00' := by
          rw [charAfter, h.byteAfter, Text.bytes_cons, Text.utf8EncodeChar_of_lt hsmall]
          rfl
        rw [hzero]
        exact ofPair?_of_ne (by decide)
      | cons e ds =>
        rcases h.charAfter_one hsmall with he | ⟨hbyte, he⟩
        · rw [he]
          rfl
        · rw [Kind.ofPair?_eq_none_of_le (.inr hbyte)]
          exact (Kind.ofPair?_eq_none_of_le (.inr he)).symm
    · have hlarge : 128 ≤ d.toNat := Nat.le_of_not_lt hsmall
      rw [Kind.ofPair?_eq_none_of_le (.inl hlarge)]
      cases ds with
      | nil => rfl
      | cons e ds => exact (Kind.ofPair?_eq_none_of_le (.inl hlarge)).symm
  · rw [Kind.ofPair?_eq_none_of_le (.inl hbyte)]
    cases ds with
    | nil => rfl
    | cons e ds => exact (Kind.ofPair?_eq_none_of_le (.inl hd)).symm

/-- The way of the end applies where the text is at its end. -/
theorem ending? (h : c.Faces (d :: ds)) (hd : d ≠ '\x00') : c.ending? = none := by
  have hbyte : c.byteAfter 0 ≠ 0 := by
    intro hzero
    rcases h.charAfter_zero with hchar | ⟨hle, -⟩
    · rw [charAfter, hzero] at hchar
      exact hd hchar.symm
    · rw [charAfter, hzero] at hle
      exact absurd hle (by decide)
  rw [Cursor.ending?, if_neg hbyte]

/-- The way of a run applies where the first character belongs to it. -/
theorem run? (h : c.Faces (d :: ds)) (hp : ∀ d, p d = true → d.toNat < 128)
    (kind : String → Kind) : c.run? p kind =
      if p d then some (c.take kind (Text.width (d :: ds.takeWhile p))) else none := by
  rw [Cursor.run?, h.runLength hp, List.takeWhile_cons]
  cases hclass : p d with
  | true =>
    have hsize := d.utf8Size_pos
    have hpos : Text.width (d :: ds.takeWhile p) ≠ 0 := by
      rw [Text.width_cons]
      omega
    rw [if_pos rfl, if_neg hpos, if_pos rfl]
  | false => rfl

theorem takeStray (h : c.Faces (d :: ds)) :
    c.takeStray = c.take (fun _ => .illegal) d.utf8Size := by
  obtain ⟨front, hsource, hoffset⟩ := h
  have hdrop : Text.dropWidth? c.offset c.source.toList = some (d :: ds) :=
    Text.dropWidth?_eq_some_iff.2 ⟨front, hoffset, hsource⟩
  rw [Cursor.takeStray, hdrop]
  rfl

/-- The lexeme that begins at the cursor is taken as a token. -/
theorem take_first (h : c.Faces (d :: ds)) {l : Lexeme} (hl : first d ds = (l, rest))
    (kind : String → Kind) (hkind : kind (String.ofList l.chars) = l.kind) :
    c.take kind (Text.width l.chars) =
      (some (l.placed c.offset), ⟨c.source, c.offset + Text.width l.chars⟩) := by
  have happend := first_append d ds
  rw [hl] at happend
  rw [← happend] at h
  rw [h.take kind, hkind]

/-- **In front of a character** a cursor takes the lexeme that begins there. -/
theorem takeToken (h : c.Faces (d :: ds)) (hd : d ≠ '\x00') :
    c.takeToken = (some ((first d ds).1.placed c.offset),
      ⟨c.source, c.offset + Text.width (first d ds).1.chars⟩) := by
  have hpair : c.pair? = (ds.head?.bind (Kind.ofPair? d)).map fun k => c.take (fun _ => k) 2 := by
    rw [Cursor.pair?, h.ofPair?_charAfter]
  have hmark : c.mark? = (Kind.ofMark? d).map fun k => c.take (fun _ => k) 1 := by
    rw [Cursor.mark?, h.ofMark?_charAfter]
  have hdigits := h.run? toNat_lt_of_isDigit fun _ => .integer
  have hletters := h.run? toNat_lt_of_isAlpha Kind.ofWord
  rw [Cursor.takeToken, ways, List.findSome?_cons, h.ending? hd, List.findSome?_cons, hpair,
    List.findSome?_cons, hmark, List.findSome?_cons, hdigits, List.findSome?_cons, hletters,
    List.findSome?_nil, h.takeStray]
  -- the ways are tried in the order in which the lexeme is looked for
  cases hk : ds.head?.bind (Kind.ofPair? d) with
  | some k =>
    obtain ⟨e, he, hke⟩ := Option.bind_eq_some_iff.1 hk
    obtain ⟨ds, rfl⟩ := List.head?_eq_some_iff.1 he
    have hfirst : first d (e :: ds) = (⟨k, [d, e]⟩, ds) := by
      rw [first, Lexeme.pair?, hke]
      rfl
    have hwidth : Text.width [d, e] = 2 := by
      obtain ⟨hd, he⟩ := Kind.toNat_lt_of_ofPair? hke
      rw [Text.width_cons, Text.width_cons, Text.utf8Size_of_lt hd, Text.utf8Size_of_lt he,
        Text.width_nil]
    have htake := h.take_first hfirst (fun _ => k) rfl
    rw [hfirst, ← htake, hwidth]
    rfl
  | none =>
    have hnopair : Lexeme.pair? d ds = none := by
      cases ds with
      | nil => rfl
      | cons e ds =>
        have hke : Kind.ofPair? d e = none := hk
        rw [Lexeme.pair?, hke, Option.map_none]
    cases hk : Kind.ofMark? d with
    | some k =>
      have hfirst : first d ds = (⟨k, [d]⟩, ds) := by rw [first, hnopair, hk]
      have hwidth : Text.width [d] = 1 := by
        have hd : d.toNat < 128 := Kind.toNat_lt_of_ofMark? (by simp [hk])
        rw [Text.width_cons, Text.utf8Size_of_lt hd, Text.width_nil]
      have htake := h.take_first hfirst (fun _ => k) rfl
      rw [hfirst, ← htake, hwidth]
      rfl
    | none =>
      have hrun : first d ds = run d ds := by rw [first, hnopair, hk]
      by_cases hdigit : d.isDigit = true
      · rw [run, if_pos hdigit] at hrun
        rw [hrun, ← h.take_first hrun (fun _ => .integer) rfl, if_pos hdigit]
        rfl
      · by_cases halpha : d.isAlpha = true
        · rw [run, if_neg hdigit, if_pos halpha] at hrun
          rw [hrun, ← h.take_first hrun Kind.ofWord rfl, if_neg hdigit, if_pos halpha]
          rfl
        · rw [run, if_neg hdigit, if_neg halpha] at hrun
          rw [hrun, ← h.take_first hrun (fun _ => .illegal) rfl, if_neg hdigit, if_neg halpha]
          rfl

/-- Where the text is at its end, that is what a cursor reads. -/
theorem takeToken_of_end (h : c.Faces rest) (hend : ∀ d ∈ rest.head?, d = '\x00') :
    c.takeToken = (some (.ending c.offset), c) := by
  have hzero : c.byteAfter 0 = 0 := by
    rw [h.byteAfter]
    cases rest with
    | nil => rfl
    | cons d ds =>
      obtain rfl := hend d rfl
      rfl
  rw [Cursor.takeToken, ways, List.findSome?_cons, Cursor.ending?, if_pos hzero]
  rfl

/-- **A cursor reads what a scanner reads**, and comes to the same place. -/
theorem pull (h : c.Faces rest) :
    c.pull = (some (Scanner.next ⟨c.offset, rest⟩).1,
        ⟨c.source, (Scanner.next ⟨c.offset, rest⟩).2.offset⟩) ∧
      c.pull.2.Faces (Scanner.next ⟨c.offset, rest⟩).2.rest := by
  obtain ⟨hskip, hfaces⟩ := h.skipGap
  rw [Cursor.pull]
  cases hrest : first? (rest.dropWhile isGap) with
  | none =>
    have hread : Scanner.read? ⟨c.offset, rest⟩ = none := Scanner.read?_eq_none hrest
    rw [hfaces.takeToken_of_end (first?_eq_none_iff.1 hrest), Scanner.next, hread, Option.getD_none]
    refine ⟨?_, hfaces⟩
    rw [hskip]
  | some found =>
    obtain ⟨d, ds, hds, hd, rfl⟩ : ∃ d ds, rest.dropWhile isGap = d :: ds ∧ d ≠ '\x00' ∧
        found = first d ds := by
      cases hds : rest.dropWhile isGap with
      | nil =>
        rw [hds] at hrest
        cases hrest
      | cons d ds =>
        rw [hds, first?] at hrest
        split at hrest
        · cases hrest
        · next hd => exact ⟨d, ds, rfl, hd, (Option.some.inj hrest).symm⟩
    have hread : Scanner.next ⟨c.offset, rest⟩ =
        ((first d ds).1.placed c.skipGap.offset,
          ⟨c.skipGap.offset + Text.width (first d ds).1.chars, (first d ds).2⟩) := by
      rw [hskip, Scanner.next, Scanner.read?]
      simp only [Scanner.skipGap, hds, first?, if_neg hd]
      rfl
    rw [hds] at hfaces
    have htake := hfaces.takeToken hd
    rw [← first_append] at hfaces
    have hbehind := hfaces.advance
    rw [hread, htake]
    refine ⟨?_, ?_⟩
    · rw [hskip]
    · rw [← hbehind.1]
      exact hbehind.2

end Faces

/-- At a cursor inside a character stands a byte of at least 128. -/
theorem Inside.remainder (h : c.Inside) : ∃ b bs, c.remainder = b :: bs ∧ 128 ≤ b.toNat := by
  obtain ⟨front, d, behind, hsource, hstart, hstop⟩ := h
  have hlarge : 128 ≤ d.toNat := by
    apply Nat.le_of_not_lt
    intro hsmall
    rw [Text.utf8Size_of_lt hsmall] at hstop
    omega
  have hindex : c.offset - Text.width front < (String.utf8EncodeChar d).length := by
    rw [String.length_utf8EncodeChar]
    omega
  have hdrop : c.remainder = (String.utf8EncodeChar d).drop (c.offset - Text.width front) ++
      Text.bytes behind := by
    have hle : (Text.bytes front).length ≤ c.offset := by
      rw [Text.length_bytes]
      omega
    rw [Cursor.remainder, ← Text.bytes_toList, hsource, Text.bytes_append, Text.bytes_cons,
      List.drop_append, List.drop_eq_nil_of_le hle, List.nil_append, Text.length_bytes,
      List.drop_append_of_le_length (Nat.le_of_lt hindex)]
  rw [List.drop_eq_getElem_cons hindex] at hdrop
  exact ⟨_, _, hdrop, Text.le_of_mem_utf8EncodeChar hlarge (List.getElem_mem hindex)⟩

/-- A cursor inside a character stands in front of none. -/
theorem Inside.not_faces (h : c.Inside) (rest : List Char) : ¬c.Faces rest := by
  rintro ⟨front', hsource', hoffset⟩
  obtain ⟨front, d, behind, hsource, hstart, hstop⟩ := h
  rw [hsource'] at hsource
  rcases List.append_eq_append_iff.1 hsource with ⟨between, hfront, -⟩ | ⟨between, hfront, hbehind⟩
  · rw [hfront, Text.width_append] at hstart
    omega
  · rw [hfront, Text.width_append] at hoffset
    cases between with
    | nil =>
      rw [Text.width_nil] at hoffset
      omega
    | cons e between =>
      obtain ⟨rfl, -⟩ := List.cons.inj hbehind
      rw [Text.width_cons] at hoffset
      omega

/-- **Inside a character** a cursor reads nothing and stays where it is. -/
theorem Inside.pull (h : c.Inside) : c.pull = (none, c) := by
  obtain ⟨b, bs, hremainder, hb⟩ := h.remainder
  have hchar : 128 ≤ (c.charAfter 0).toNat := by
    rw [charAfter, byteAfter_eq_getD, hremainder]
    exact hb
  have hzero : c.byteAfter 0 ≠ 0 := by
    rw [byteAfter_eq_getD, hremainder]
    rintro rfl
    exact absurd hb (by decide)
  have hrun : ∀ p, (∀ d, p d = true → d.toNat < 128) → c.runLength p = 0 := by
    intro p hp
    have hclass : ¬p (Char.ofUInt8 b) = true := by
      intro hclass
      have hlt := hp _ hclass
      rw [Text.toNat_ofUInt8] at hlt
      omega
    rw [runLength, hremainder, List.takeWhile_cons, if_neg hclass]
    rfl
  have hskip : c.skipGap = c := by
    have hsize : c.offset ≤ c.source.utf8ByteSize := by
      obtain ⟨front, d, behind, hsource, -, hstop⟩ := h
      rw [← Text.width_toList, hsource, Text.width_append, Text.width_cons]
      omega
    rw [skipGap, hrun _ toNat_lt_of_isGap, advance, Nat.add_zero, Nat.min_eq_left hsize]
  have hdrop : Text.dropWidth? c.offset c.source.toList = none := by
    cases hdrop : Text.dropWidth? c.offset c.source.toList with
    | none => rfl
    | some rest =>
      obtain ⟨front, hoffset, hsource⟩ := Text.dropWidth?_eq_some_iff.1 hdrop
      exact absurd ⟨front, hsource, hoffset⟩ (h.not_faces rest)
  rw [Cursor.pull, hskip, takeToken, ways, List.findSome?_cons, ending?, if_neg hzero,
    List.findSome?_cons, pair?, Kind.ofPair?_eq_none_of_le (.inl hchar), List.findSome?_cons, mark?,
    Kind.ofMark?_eq_none_of_le hchar, List.findSome?_cons, run?, hrun _ toNat_lt_of_isDigit,
    List.findSome?_cons, run?, hrun _ toNat_lt_of_isAlpha, List.findSome?_nil, takeStray, hdrop]
  rfl

/-- A cursor in a text stands in front of the rest of it or inside a character. -/
theorem faces_or_inside (h : c.offset ≤ c.source.utf8ByteSize) :
    (∃ rest, c.Faces rest) ∨ c.Inside := by
  have key : ∀ (cs front : List Char), c.source.toList = front ++ cs →
      Text.width front ≤ c.offset → (∃ rest, c.Faces rest) ∨ c.Inside := by
    intro cs
    induction cs with
    | nil =>
      intro front hsource hfront
      rw [← Text.width_toList, hsource, List.append_nil] at h
      exact .inl ⟨[], front, hsource, Nat.le_antisymm hfront h⟩
    | cons d cs ih =>
      intro front hsource hfront
      rcases Nat.eq_or_lt_of_le hfront with heq | hlt
      · exact .inl ⟨d :: cs, front, hsource, heq⟩
      by_cases hstop : c.offset < Text.width front + d.utf8Size
      · exact .inr ⟨front, d, cs, hsource, hlt, hstop⟩
      · apply ih (front ++ [d])
        · rw [hsource, List.append_assoc, List.singleton_append]
        · rw [Text.width_append, Text.width_cons, Text.width_nil]
          omega
  exact key _ [] rfl (Nat.zero_le _)

end Cursor

end Monkey

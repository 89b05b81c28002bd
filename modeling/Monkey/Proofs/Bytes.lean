import Monkey.Text.Width
import Monkey.Token.Lexeme

/-!
# The bytes of a text

A text as the bytes of its UTF-8 form: there are as many as its width says (`Text.length_bytes`),
and a part of the text is a part of the bytes (`Text.extract_bytes`). Only the character zero has a zero
byte (`Text.zero_mem_bytes`), and what may stand between lexemes takes one byte each
(`Text.mem_gapBytes`).
-/

namespace Monkey.Text

variable {c : Char} {cs : List Char}

/-- The bytes of the UTF-8 form of a text. -/
def bytes (cs : List Char) : List UInt8 := cs.flatMap String.utf8EncodeChar

/-- The bytes of the characters that may stand between lexemes: space, tab, carriage return and
newline. -/
def gapBytes : List UInt8 := [0x20, 0x09, 0x0d, 0x0a]

@[simp] theorem bytes_nil : bytes [] = [] := rfl

@[simp] theorem bytes_cons (c : Char) (cs : List Char) :
    bytes (c :: cs) = String.utf8EncodeChar c ++ bytes cs := List.flatMap_cons

@[simp] theorem bytes_append (a b : List Char) : bytes (a ++ b) = bytes a ++ bytes b :=
  List.flatMap_append

/-- The bytes of a string's characters are those of the string. -/
theorem bytes_toList (s : String) : bytes s.toList = s.toUTF8.data.toList := by
  have h : s.toUTF8 = s.toList.utf8Encode := s.utf8Encode_toList.symm
  rw [h, List.utf8Encode, List.toList_data_toByteArray]
  rfl

/-- A text is told by its bytes. -/
theorem bytes_injective {a b : List Char} (h : bytes a = bytes b) : a = b := by
  rw [← String.toList_ofList (l := a), ← String.toList_ofList (l := b), bytes_toList,
    bytes_toList] at h
  have harray := ByteArray.ext (Array.toList_inj.1 h)
  exact String.ofList_injective (String.toByteArray_inj.1 harray)

/-- A text has as many bytes as its width says. -/
@[simp] theorem length_bytes (cs : List Char) : (bytes cs).length = width cs := by
  induction cs with
  | nil => rfl
  | cons c cs ih =>
    rw [bytes_cons, List.length_append, ih, String.length_utf8EncodeChar, width_cons]

/-- **A part of a text is a part of its bytes.** -/
theorem extract_bytes (front part behind : List Char) :
    (bytes (front ++ (part ++ behind))).extract (width front) (width front + width part) =
      bytes part := by
  rw [List.extract, Nat.add_sub_cancel_left, bytes_append, bytes_append, ← length_bytes front,
    List.drop_left, ← length_bytes part, List.take_left]

/-- A character below 128 is its only byte. -/
theorem utf8EncodeChar_of_lt (h : c.toNat < 128) :
    String.utf8EncodeChar c = [UInt8.ofNat c.toNat] := by
  have hval : c.val.toNat ≤ 127 := Nat.le_of_lt_succ h
  rw [String.utf8EncodeChar, if_pos hval]
  rfl

theorem utf8Size_of_lt (h : c.toNat < 128) : c.utf8Size = 1 := by
  rw [← String.length_utf8EncodeChar, utf8EncodeChar_of_lt h, List.length_singleton]

/-- All bytes of any other character are at least 128. -/
theorem le_of_mem_utf8EncodeChar (h : 128 ≤ c.toNat) {b : UInt8}
    (hb : b ∈ String.utf8EncodeChar c) : 128 ≤ b.toNat := by
  have hval : ¬c.val.toNat ≤ 127 := Nat.not_le_of_lt h
  unfold String.utf8EncodeChar at hb
  dsimp only at hb
  rw [if_neg hval] at hb
  -- a first byte has 192, 224 or 240 added to it, and every other byte has 128
  split at hb
  · simp only [List.mem_cons, List.not_mem_nil, or_false] at hb
    rcases hb with rfl | rfl <;> rw [UInt8.toNat_ofNat'] <;> omega
  · split at hb
    · simp only [List.mem_cons, List.not_mem_nil, or_false] at hb
      rcases hb with rfl | rfl | rfl <;> rw [UInt8.toNat_ofNat'] <;> omega
    · simp only [List.mem_cons, List.not_mem_nil, or_false] at hb
      rcases hb with rfl | rfl | rfl | rfl <;> rw [UInt8.toNat_ofNat'] <;> omega

@[simp] theorem toNat_ofUInt8 (b : UInt8) : (Char.ofUInt8 b).toNat = b.toNat := rfl

/-- A character below 128 is told by its byte. -/
theorem ofUInt8_ofNat (h : c.toNat < 128) : Char.ofUInt8 (UInt8.ofNat c.toNat) = c := by
  rw [← Char.toNat_inj, toNat_ofUInt8, UInt8.toNat_ofNat']
  omega

theorem utf8EncodeChar_ofUInt8 {b : UInt8} (h : b.toNat < 128) :
    String.utf8EncodeChar (Char.ofUInt8 b) = [b] := by
  have hlt : (Char.ofUInt8 b).toNat < 128 := h
  rw [utf8EncodeChar_of_lt hlt, toNat_ofUInt8, UInt8.ofNat_toNat]

/-- A byte below 128 is that of one character. -/
theorem mem_utf8EncodeChar_iff {b : UInt8} (h : b.toNat < 128) :
    b ∈ String.utf8EncodeChar c ↔ c = Char.ofUInt8 b := by
  constructor
  · intro hb
    have hc : c.toNat < 128 := by
      apply Nat.lt_of_not_le
      intro hle
      have hbyte := le_of_mem_utf8EncodeChar hle hb
      omega
    rw [utf8EncodeChar_of_lt hc, List.mem_singleton] at hb
    rw [hb, ofUInt8_ofNat hc]
  · rintro rfl
    rw [utf8EncodeChar_ofUInt8 h, List.mem_singleton]

/-- **A byte below 128 stands in a text** as often as the character that it is. -/
theorem count_bytes {b : UInt8} (h : b.toNat < 128) (cs : List Char) :
    (bytes cs).count b = cs.count (Char.ofUInt8 b) := by
  induction cs with
  | nil => rfl
  | cons c cs ih =>
    rw [bytes_cons, List.count_append, ih, List.count_cons, Nat.add_comm]
    congr 1
    split
    · next hc =>
      rw [eq_of_beq hc, utf8EncodeChar_ofUInt8 h]
      exact List.count_singleton_self ..
    · next hc =>
      apply List.count_eq_zero.2
      rw [mem_utf8EncodeChar_iff h]
      rintro rfl
      exact hc (beq_self_eq_true _)

/-- **Only the character zero has a zero byte.** -/
theorem zero_mem_bytes : (0 : UInt8) ∈ bytes cs ↔ '\x00' ∈ cs := by
  have hcount := count_bytes (b := 0) (by decide) cs
  rw [← List.count_pos_iff, ← List.count_pos_iff, hcount]
  rfl

/-- The byte that a text begins with is its first character, or both are at least 128. -/
theorem head_bytes (c : Char) (cs : List Char) : ∃ b bs, bytes (c :: cs) = b :: bs ∧
    (Char.ofUInt8 b = c ∨ 128 ≤ (Char.ofUInt8 b).toNat ∧ 128 ≤ c.toNat) := by
  rw [bytes_cons]
  by_cases hc : c.toNat < 128
  · rw [utf8EncodeChar_of_lt hc]
    exact ⟨_, _, rfl, .inl (ofUInt8_ofNat hc)⟩
  · obtain ⟨b, bs, hencode⟩ := List.exists_cons_of_ne_nil (String.utf8EncodeChar_ne_nil (c := c))
    have hle : 128 ≤ c.toNat := Nat.le_of_not_lt hc
    have hb : b ∈ String.utf8EncodeChar c := by
      rw [hencode]
      exact List.mem_cons_self
    rw [hencode]
    exact ⟨b, _, rfl, .inr ⟨le_of_mem_utf8EncodeChar hle hb, hle⟩⟩

/-- **A run of characters below 128** is a run of bytes. -/
theorem takeWhile_bytes {p : Char → Bool} (hp : ∀ c, p c = true → c.toNat < 128)
    (cs : List Char) :
    (bytes cs).takeWhile (fun b => p (Char.ofUInt8 b)) = bytes (cs.takeWhile p) := by
  induction cs with
  | nil => rfl
  | cons c cs ih =>
    rw [List.takeWhile_cons]
    split
    · next hc =>
      have hlt := hp c hc
      rw [bytes_cons, bytes_cons, utf8EncodeChar_of_lt hlt, List.singleton_append,
        List.takeWhile_cons, ofUInt8_ofNat hlt, if_pos hc, ih, List.singleton_append]
    · next hc =>
      obtain ⟨b, bs, hbytes, hb⟩ := head_bytes c cs
      have hstop : ¬p (Char.ofUInt8 b) = true := by
        rcases hb with hb | ⟨hle, -⟩
        · rwa [hb]
        · intro hclass
          have hlt := hp _ hclass
          omega
      rw [hbytes, List.takeWhile_cons, if_neg hstop, bytes_nil]

/-- What may stand between lexemes takes one byte. -/
theorem utf8EncodeChar_of_isGap (h : Lexeme.isGap c = true) :
    ∃ b ∈ gapBytes, String.utf8EncodeChar c = [b] := by
  simp only [Lexeme.isGap, Bool.or_eq_true, beq_iff_eq] at h
  rcases h with ((rfl | rfl) | rfl) | rfl
  · exact ⟨0x20, by decide, by decide⟩
  · exact ⟨0x09, by decide, by decide⟩
  · exact ⟨0x0d, by decide, by decide⟩
  · exact ⟨0x0a, by decide, by decide⟩

/-- The bytes of a gap are those of the characters that may stand there. -/
theorem mem_gapBytes (h : ∀ c ∈ cs, Lexeme.isGap c = true) {b : UInt8} (hb : b ∈ bytes cs) :
    b ∈ gapBytes := by
  obtain ⟨c, hc, hb⟩ := List.mem_flatMap.1 hb
  obtain ⟨d, hd, hencode⟩ := utf8EncodeChar_of_isGap (h c hc)
  rw [hencode, List.mem_singleton] at hb
  exact hb ▸ hd

end Monkey.Text

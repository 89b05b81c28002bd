/-!
# Blank characters

The characters that leave blank space on a page, and the removal of such space from the end of a
text: what is left (`trimEnd`) is an initial part of the text whose last character is not blank.
-/

namespace Monkey.Text

/-- Whether a character is white space, in any script. -/
def isBlank (c : Char) : Bool :=
  let n := c.toNat
  (9 ≤ n && n ≤ 13) || n == 0x20 || n == 0x85 || n == 0xa0 || n == 0x1680 ||
    (0x2000 ≤ n && n ≤ 0x200a) || n == 0x2028 || n == 0x2029 || n == 0x202f || n == 0x205f ||
    n == 0x3000

/-- A text without the blank characters at its end. -/
def trimEnd : List Char → List Char
  | [] => []
  | c :: cs =>
    match trimEnd cs with
    | [] => if isBlank c then [] else [c]
    | d :: ds => c :: d :: ds

/-- Trimming only takes away from the end. -/
theorem trimEnd_prefix (cs : List Char) : trimEnd cs <+: cs := by
  induction cs with
  | nil => simp [trimEnd]
  | cons c cs ih =>
    simp only [trimEnd]
    split
    · split <;> simp
    · next d ds h => rw [← h]; exact (List.prefix_cons_inj c).2 ih

/-- What is taken away is blank. -/
theorem trimEnd_rest (cs : List Char) :
    ∃ blanks, cs = trimEnd cs ++ blanks ∧ ∀ c ∈ blanks, isBlank c = true := by
  induction cs with
  | nil => exact ⟨[], by simp [trimEnd]⟩
  | cons c cs ih =>
    obtain ⟨blanks, h, hb⟩ := ih
    simp only [trimEnd]
    split
    · next hn =>
      rw [hn, List.nil_append] at h
      split
      · next hc => exact ⟨c :: blanks, by simp [h], by simpa [hc] using hb⟩
      · exact ⟨blanks, by simp [h], hb⟩
    · next d ds hd => exact ⟨blanks, by rw [← hd, List.cons_append, ← h], hb⟩

theorem trimEnd_eq_nil {blanks : List Char} (h : ∀ c ∈ blanks, isBlank c = true) :
    trimEnd blanks = [] := by
  induction blanks with
  | nil => rfl
  | cons c blanks ih =>
    obtain ⟨hc, hblanks⟩ := List.forall_mem_cons.1 h
    rw [trimEnd, ih hblanks]
    exact if_pos hc

/-- Blank characters at the end make no difference to what is left. -/
theorem trimEnd_append_blank {blanks : List Char} (h : ∀ c ∈ blanks, isBlank c = true)
    (cs : List Char) : trimEnd (cs ++ blanks) = trimEnd cs := by
  induction cs with
  | nil => exact trimEnd_eq_nil h
  | cons c cs ih => rw [List.cons_append, trimEnd, trimEnd, ih]

/-- Nothing is taken away in front of a character that is not blank. -/
theorem trimEnd_append {kept : List Char} (h : ∀ c ∈ kept.getLast?, isBlank c = false)
    (rest : List Char) : trimEnd (kept ++ rest) = kept ++ trimEnd rest := by
  induction kept with
  | nil => rfl
  | cons c kept ih =>
    cases kept with
    | nil =>
      have hc : isBlank c = false := h c rfl
      simp only [List.cons_append, List.nil_append, trimEnd]
      split
      · next hnil => rw [hc, hnil]; rfl
      · next d ds hcons => rw [hcons]
    | cons d kept =>
      rw [List.cons_append, trimEnd, ih h]
      rfl

end Monkey.Text

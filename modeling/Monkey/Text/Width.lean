/-!
# Widths of text

Positions in a text count the bytes of its UTF-8 form, while the text itself is a list of
characters. `width` is the bridge: it is additive (`width_append`), and `dropWidth?` cuts a text at
a byte offset, if a character begins there. So does `slice?` at both ends of a part of the text.
-/

namespace Monkey.Text

/-- The number of bytes that the UTF-8 form of a text takes. -/
def width : List Char → Nat
  | [] => 0
  | c :: cs => c.utf8Size + width cs

@[simp] theorem width_nil : width [] = 0 := rfl

@[simp] theorem width_cons (c : Char) (cs : List Char) :
    width (c :: cs) = c.utf8Size + width cs := rfl

@[simp] theorem width_append (a b : List Char) : width (a ++ b) = width a + width b := by
  induction a with
  | nil => simp
  | cons c cs ih => simp [ih, Nat.add_assoc]

/-- What is left of a text after its first `n` bytes; nothing if offset `n` lies inside a character
or past the end. -/
def dropWidth? : Nat → List Char → Option (List Char)
  | 0, cs => some cs
  | _ + 1, [] => none
  | n + 1, c :: cs => if c.utf8Size ≤ n + 1 then dropWidth? (n + 1 - c.utf8Size) cs else none

/-- The first `n` bytes of a text; nothing if offset `n` lies inside a character or past the end. -/
def takeWidth? (n : Nat) (cs : List Char) : Option (List Char) :=
  (dropWidth? n cs).map fun rest => cs.take (cs.length - rest.length)

/-- So many bytes of a text from an offset on; nothing if one of the two ends lies inside a character
or past the end. -/
def slice? (start count : Nat) (cs : List Char) : Option (List Char) :=
  (dropWidth? start cs).bind (takeWidth? count)

/-- The width of a string's characters is its size. -/
@[simp] theorem width_toList (s : String) : width s.toList = s.utf8ByteSize := by
  have key : ∀ cs : List Char, width cs = (String.ofList cs).utf8ByteSize := by
    intro cs
    induction cs with
    | nil => simp
    | cons c cs ih =>
      have hc : (String.ofList [c]).utf8ByteSize = c.utf8Size := by
        rw [← String.singleton_eq_ofList, String.utf8ByteSize_singleton]
      rw [width_cons, ih, ← List.singleton_append, String.ofList_append,
        String.utf8ByteSize_append, hc]
  rw [key, String.ofList_toList]

@[simp] theorem width_eq_zero {cs : List Char} : width cs = 0 ↔ cs = [] := by
  cases cs with
  | nil => simp
  | cons c cs => have := c.utf8Size_pos; simp; omega

/-- There are no more characters in a text than bytes. -/
theorem length_le_width (cs : List Char) : cs.length ≤ width cs := by
  induction cs with
  | nil => exact Nat.le_refl _
  | cons c cs ih =>
    have := c.utf8Size_pos
    rw [List.length_cons, width_cons]
    omega

/-- There are as many characters as bytes exactly where each character takes one byte. -/
theorem width_eq_length_iff {cs : List Char} :
    width cs = cs.length ↔ ∀ c ∈ cs, c.utf8Size = 1 := by
  induction cs with
  | nil => simp
  | cons c cs ih =>
    have hpos := c.utf8Size_pos
    have hle := length_le_width cs
    rw [List.forall_mem_cons, ← ih, List.length_cons, width_cons]
    omega

/-- A cut at a byte offset succeeds exactly where a first part of that width ends. -/
theorem dropWidth?_eq_some_iff {n : Nat} {cs rest : List Char} :
    dropWidth? n cs = some rest ↔ ∃ front, width front = n ∧ cs = front ++ rest := by
  induction cs generalizing n with
  | nil =>
    cases n with
    | zero => simp [dropWidth?, @eq_comm _ [] rest]
    | succ n =>
      simp only [dropWidth?, reduceCtorEq, false_iff, not_exists, not_and]
      rintro front hw h
      simp [(List.append_eq_nil_iff.1 h.symm).1] at hw
  | cons c cs ih =>
    cases n with
    | zero => simp [dropWidth?]
    | succ n =>
      rw [dropWidth?]
      constructor
      · intro h
        split at h
        · obtain ⟨front, hw, rfl⟩ := ih.1 h
          exact ⟨c :: front, by simp; omega, rfl⟩
        · simp at h
      · rintro ⟨front, hw, h⟩
        cases front with
        | nil => simp at hw
        | cons d ds =>
          obtain ⟨rfl, rfl⟩ := List.cons.inj h
          simp only [width_cons] at hw
          rw [if_pos (by omega)]
          exact ih.2 ⟨ds, by omega, rfl⟩

theorem takeWidth?_eq_some_iff {n : Nat} {cs front : List Char} :
    takeWidth? n cs = some front ↔ width front = n ∧ ∃ rest, cs = front ++ rest := by
  simp only [takeWidth?, Option.map_eq_some_iff, dropWidth?_eq_some_iff]
  constructor
  · rintro ⟨rest, ⟨front', hw, rfl⟩, rfl⟩
    have hlength : (front' ++ rest).length - rest.length = front'.length := by simp
    rw [hlength, List.take_left]
    exact ⟨hw, rest, rfl⟩
  · rintro ⟨hw, rest, rfl⟩
    refine ⟨rest, ⟨front, hw, rfl⟩, ?_⟩
    have hlength : (front ++ rest).length - rest.length = front.length := by simp
    rw [hlength, List.take_left]

/-- **A part of a text can be cut out** exactly where characters end in front of it and behind it. -/
theorem slice?_eq_some_iff {start count : Nat} {cs part : List Char} :
    slice? start count cs = some part ↔
      ∃ front behind, cs = front ++ (part ++ behind) ∧ width front = start ∧ width part = count := by
  simp only [slice?, Option.bind_eq_some_iff, dropWidth?_eq_some_iff, takeWidth?_eq_some_iff]
  constructor
  · rintro ⟨rest, ⟨front, hfront, rfl⟩, hpart, behind, rfl⟩
    exact ⟨front, behind, rfl, hfront, hpart⟩
  · rintro ⟨front, behind, rfl, hfront, hpart⟩
    exact ⟨part ++ behind, ⟨front, hfront, rfl⟩, hpart, behind, rfl⟩

end Monkey.Text

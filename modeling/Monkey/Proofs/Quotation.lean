import Monkey.Text.Quoted

/-!
# Quotations

The rules by which a text is written between quotes. Some characters have a letter that is written
behind a backslash; which of the others show by themselves, and which are written by their numbers,
is left open (`Escapes`), so the rules hold whatever a way to quote takes for visible (`Quotation`).
Main statements: a quotation is one of one text only (`Quotation.quote_injective`), and it breaks no
line (`Quotation.isBreak_of_mem`).
-/

namespace Monkey.Text

/-- The characters that are written with a letter behind a backslash. -/
def letters : List (Char × Char) :=
  [('"', '"'), ('\\', '\\'), ('\x00', '0'), ('\t', 't'), ('\n', 'n'), ('\r', 'r')]

/-- The ways to write a character between quotes. One without a letter is written as itself or by
its number. -/
inductive Escapes (c : Char) : List Char → Prop where
  | letter {l : Char} (h : (c, l) ∈ letters) : Escapes c ['\\', l]
  | itself (h : c ∉ letters.map Prod.fst) : Escapes c [c]
  | number (h : c ∉ letters.map Prod.fst) :
      Escapes c ('\\' :: 'u' :: '\x7b' :: (hexDigits c.toNat ++ ['\x7d']))

/-- The ways to write characters behind an opening quote, up to the closing one. -/
inductive Written : List Char → List Char → Prop where
  | close : Written [] ['"']
  | char {c : Char} {cs w x : List Char} (hc : Escapes c w) (h : Written cs x) :
      Written (c :: cs) (w ++ x)

/-- A way to put texts between quotes. -/
structure Quotation where
  quote : String → String
  written : ∀ s, ∃ w, Written s.toList w ∧ (quote s).toList = '"' :: w

/-- Whether a character ends a line. -/
def isBreak (c : Char) : Bool := c == '\n' || c == '\r'

variable {c d : Char} {cs ds w v x y : List Char}

/-- A text can be cut in one way in front of the first character of some sort. -/
theorem cut_unique (hw : c ∉ w) (hv : c ∉ v) (h : w ++ c :: x = v ++ c :: y) : w = v ∧ x = y := by
  induction w generalizing v with
  | nil =>
    cases v with
    | nil => exact ⟨rfl, (List.cons.inj h).2⟩
    | cons d v => exact absurd (List.cons.inj h).1 (List.ne_of_not_mem_cons hv)
  | cons b w ih =>
    cases v with
    | nil => exact absurd (List.cons.inj h).1.symm (List.ne_of_not_mem_cons hw)
    | cons d v =>
      obtain ⟨rfl, hrest⟩ := List.cons.inj h
      obtain ⟨rfl, hxy⟩ :=
        ih (List.not_mem_of_not_mem_cons hw) (List.not_mem_of_not_mem_cons hv) hrest
      exact ⟨rfl, hxy⟩

section Hexadecimal

/-- The number that a hexadecimal digit stands for. -/
def hexDigit (c : Char) : Nat := if c.isDigit then c.toNat - '0'.toNat else c.toNat - 'a'.toNat + 10

/-- The number that hexadecimal digits stand for. -/
def hexValue (digits : List Char) : Nat := digits.foldl (fun n c => 16 * n + hexDigit c) 0

theorem hexDigit_digitChar : ∀ n < 16, hexDigit (Nat.digitChar n) = n := by decide

theorem isAlphanum_digitChar : ∀ n < 16, (Nat.digitChar n).isAlphanum = true := by decide

/-- The digits of a number are those of its quotient by sixteen, and one more. -/
theorem hexDigits_of_le {n : Nat} (h : 16 ≤ n) :
    hexDigits n = hexDigits (n / 16) ++ [Nat.digitChar (n % 16)] :=
  Nat.toDigits_of_base_le (by decide) h

/-- A number is read back from its hexadecimal digits. -/
theorem hexValue_hexDigits (n : Nat) : hexValue (hexDigits n) = n := by
  induction n using Nat.strongRecOn with
  | _ n ih =>
    rcases Nat.lt_or_ge n 16 with h | h
    · rw [hexDigits, Nat.toDigits_of_lt_base h]
      calc hexValue [Nat.digitChar n] = 16 * 0 + hexDigit (Nat.digitChar n) := rfl
        _ = n := by rw [hexDigit_digitChar n h, Nat.zero_add]
    · have hfront := ih (n / 16) (by omega)
      have hlast := hexDigit_digitChar (n % 16) (Nat.mod_lt n (by decide))
      calc hexValue (hexDigits n)
          = 16 * hexValue (hexDigits (n / 16)) + hexDigit (Nat.digitChar (n % 16)) := by
            rw [hexDigits_of_le h, hexValue, List.foldl_append]
            rfl
        _ = n := by rw [hfront, hlast, Nat.div_add_mod]

theorem isAlphanum_of_mem_hexDigits {n : Nat} (h : c ∈ hexDigits n) : c.isAlphanum = true := by
  induction n using Nat.strongRecOn with
  | _ n ih =>
    rcases Nat.lt_or_ge n 16 with hn | hn
    · rw [hexDigits, Nat.toDigits_of_lt_base hn] at h
      obtain rfl := List.mem_singleton.1 h
      exact isAlphanum_digitChar n hn
    · rw [hexDigits_of_le hn] at h
      rcases List.mem_append.1 h with h | h
      · exact ih (n / 16) (by omega) h
      · obtain rfl := List.mem_singleton.1 h
        exact isAlphanum_digitChar _ (Nat.mod_lt n (by decide))

end Hexadecimal

theorem brace_notMem_hexDigits (n : Nat) : '\x7d' ∉ hexDigits n := fun h =>
  absurd (isAlphanum_of_mem_hexDigits h) (by decide)

/-- What is written up to a closing brace tells the number. -/
theorem hexDigits_unique {m n : Nat}
    (h : hexDigits m ++ '\x7d' :: x = hexDigits n ++ '\x7d' :: y) : m = n ∧ x = y := by
  obtain ⟨hdigits, hxy⟩ := cut_unique (brace_notMem_hexDigits m) (brace_notMem_hexDigits n) h
  refine ⟨?_, hxy⟩
  rw [← hexValue_hexDigits m, hdigits, hexValue_hexDigits]

section Letters

theorem eq_of_letter : ∀ p ∈ letters, ∀ q ∈ letters, p.2 = q.2 → p.1 = q.1 := by decide

theorem backslash_mem_letters : '\\' ∈ letters.map Prod.fst := by decide

theorem quote_mem_letters : '"' ∈ letters.map Prod.fst := by decide

/-- No letter is taken for the sign of a number, or breaks a line. -/
theorem letter_ne : ∀ p ∈ letters, p.2 ≠ 'u' ∧ isBreak p.2 = false := by decide

theorem isBreak_of_isAlphanum (h : c.isAlphanum = true) : isBreak c = false := by
  cases hb : isBreak c with
  | false => rfl
  | true =>
    rcases (by simpa [isBreak] using hb : c = '\n' ∨ c = '\r') with rfl | rfl
    · cases h
    · cases h

theorem isBreak_of_notMem_letters (h : c ∉ letters.map Prod.fst) : isBreak c = false := by
  simp only [letters, List.map_cons, List.mem_cons, not_or] at h
  simp [isBreak, h]

end Letters

namespace Escapes

/-- No character is taken for the closing quote. -/
theorem head_ne_quote (h : Escapes c w) : w ++ x ≠ '"' :: y := by
  intro he
  cases h with
  | letter | number => exact absurd (List.cons.inj he).1 (by decide)
  | itself hc =>
    obtain ⟨rfl, -⟩ := List.cons.inj he
    exact hc quote_mem_letters

/-- **What is written for a character tells where it ends**, and which character it is. -/
theorem unique (hc : Escapes c w) (hd : Escapes d v) (h : w ++ x = v ++ y) : c = d ∧ x = y := by
  -- the first characters tell a character by itself from a backslash, the second ones a letter from
  -- the sign of a number
  cases hc with
  | letter hl =>
    cases hd with
    | letter hl' =>
      obtain ⟨hletter, hxy⟩ := List.cons.inj (List.cons.inj h).2
      exact ⟨eq_of_letter _ hl _ hl' hletter, hxy⟩
    | itself hd =>
      obtain ⟨rfl, -⟩ := List.cons.inj h
      exact absurd backslash_mem_letters hd
    | number hd =>
      obtain ⟨hletter, -⟩ := List.cons.inj (List.cons.inj h).2
      exact absurd hletter (letter_ne _ hl).1
  | itself hc =>
    cases hd with
    | itself hd => exact List.cons.inj h
    | letter | number =>
      obtain ⟨rfl, -⟩ := List.cons.inj h
      exact absurd backslash_mem_letters hc
  | number hc =>
    cases hd with
    | letter hl =>
      obtain ⟨hletter, -⟩ := List.cons.inj (List.cons.inj h).2
      exact absurd hletter.symm (letter_ne _ hl).1
    | itself hd =>
      obtain ⟨rfl, -⟩ := List.cons.inj h
      exact absurd backslash_mem_letters hd
    | number hd =>
      obtain ⟨hnat, hxy⟩ := hexDigits_unique (m := c.toNat) (n := d.toNat) (by simpa using h)
      exact ⟨Char.toNat_inj.1 hnat, hxy⟩

theorem isBreak_of_mem (h : Escapes c w) (hd : d ∈ w) : isBreak d = false := by
  cases h with
  | letter hl =>
    rcases List.mem_cons.1 hd with rfl | hd
    · rfl
    · obtain rfl := List.mem_singleton.1 hd
      exact (letter_ne _ hl).2
  | itself hc =>
    obtain rfl := List.mem_singleton.1 hd
    exact isBreak_of_notMem_letters hc
  | number =>
    simp only [List.mem_cons, List.mem_append, List.not_mem_nil, or_false] at hd
    rcases hd with rfl | rfl | rfl | hd | rfl
    case inr.inr.inr.inl => exact isBreak_of_isAlphanum (isAlphanum_of_mem_hexDigits hd)
    all_goals rfl

end Escapes

namespace Written

/-- **What is written up to the closing quote tells the characters.** -/
theorem unique (h : Written cs w) (h' : Written ds w) : cs = ds := by
  induction h generalizing ds with
  | close =>
    generalize hw : ['"'] = w at h'
    cases h' with
    | close => rfl
    | char hd => exact absurd hw.symm hd.head_ne_quote
  | @char c cs w x hc _ ih =>
    generalize hw : w ++ x = y at h'
    cases h' with
    | close => exact absurd hw hc.head_ne_quote
    | char hd hds =>
      obtain ⟨rfl, rfl⟩ := hc.unique hd hw
      rw [ih hds]

theorem isBreak_of_mem (h : Written cs w) (hd : d ∈ w) : isBreak d = false := by
  induction h with
  | close =>
    obtain rfl := List.mem_singleton.1 hd
    rfl
  | char hc _ ih =>
    rcases List.mem_append.1 hd with hd | hd
    · exact hc.isBreak_of_mem hd
    · exact ih hd

end Written

namespace Quotation

variable (q : Quotation) {s r : String}

theorem quote_injective (h : q.quote s = q.quote r) : s = r := by
  obtain ⟨w, hw, hs⟩ := q.written s
  obtain ⟨v, hv, hr⟩ := q.written r
  obtain ⟨-, rfl⟩ := List.cons.inj (hs.symm.trans ((congrArg String.toList h).trans hr))
  exact String.toList_injective (hw.unique hv)

theorem isBreak_of_mem (h : c ∈ (q.quote s).toList) : isBreak c = false := by
  obtain ⟨w, hw, hs⟩ := q.written s
  rw [hs] at h
  rcases List.mem_cons.1 h with rfl | h
  · rfl
  · exact hw.isBreak_of_mem h

end Quotation

theorem escape_of_notMem_letters (h : c ∉ letters.map Prod.fst) : escape c =
    if isVisible c then [c] else ['\\', 'u', '\x7b'] ++ hexDigits c.toNat ++ ['\x7d'] := by
  simp only [letters, List.map_cons, List.mem_cons, not_or] at h
  simp [escape, h]

/-- Messages escape characters by these rules. -/
theorem escapes_escape (c : Char) : Escapes c (escape c) := by
  by_cases hc : c ∈ letters.map Prod.fst
  · simp only [letters, List.map_cons, List.map_nil, List.mem_cons, List.not_mem_nil,
      or_false] at hc
    rcases hc with rfl | rfl | rfl | rfl | rfl | rfl
    all_goals exact .letter (by decide)
  · rw [escape_of_notMem_letters hc]
    split
    · exact .itself hc
    · exact .number hc

theorem written_flatMap (cs : List Char) : Written cs (cs.flatMap escape ++ ['"']) := by
  induction cs with
  | nil => exact .close
  | cons c cs ih =>
    rw [List.flatMap_cons, List.append_assoc]
    exact .char (escapes_escape c) ih

/-- The way in which messages put texts between quotes. -/
def quotation : Quotation where
  quote := quoted
  written s := ⟨s.toList.flatMap escape ++ ['"'], written_flatMap s.toList, String.toList_ofList⟩

end Monkey.Text

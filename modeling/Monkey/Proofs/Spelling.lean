import Monkey.Token.Lexeme

/-!
# Spelling

The legal spellings of the kinds of lexeme (`Lexeme.Spelled`), and what may stand behind a lexeme so
that it ends there (`Lexeme.EndsBefore`). Main statement: a lexeme is read back from its spelling
(`first?_of_spelled`).
-/

namespace Monkey

variable {c d : Char} {k : Kind}

namespace Kind

theorem ofMark?_eq_none_of_isDigit (h : c.isDigit = true) : ofMark? c = none := by
  unfold ofMark?
  split <;> first | rfl | exact absurd h (by decide)

theorem ofMark?_eq_none_of_isAlpha (h : c.isAlpha = true) : ofMark? c = none := by
  unfold ofMark?
  split <;> first | rfl | exact absurd h (by decide)

/-- A mark is neither a digit nor a letter. -/
theorem class_of_ofMark? (h : ofMark? c ≠ none) : c.isDigit = false ∧ c.isAlpha = false := by
  constructor
  · cases hdigit : c.isDigit with
    | false => rfl
    | true => exact absurd (ofMark?_eq_none_of_isDigit hdigit) h
  · cases halpha : c.isAlpha with
    | false => rfl
    | true => exact absurd (ofMark?_eq_none_of_isAlpha halpha) h

/-- The only spelling of a kind that has but one. -/
def spelling? : Kind → Option String
  | openCurly => some "\x7b"
  | closeCurly => some "\x7d"
  | openParen => some "("
  | closeParen => some ")"
  | assign => some "="
  | equals => some "=="
  | bang => some "!"
  | notEquals => some "!="
  | less => some "<"
  | greater => some ">"
  | semicolon => some ";"
  | comma => some ","
  | plus => some "+"
  | dash => some "-"
  | slash => some "/"
  | star => some "*"
  | letWord => some "let"
  | fnWord => some "fn"
  | returnWord => some "return"
  | ifWord => some "if"
  | elseWord => some "else"
  | trueWord => some "true"
  | falseWord => some "false"
  | _ => none

theorem spelling?_of_ofReserved? {text : String} (h : ofReserved? text = some k) :
    k.spelling? = some text := by
  unfold ofReserved? at h
  split at h <;> cases h <;> rfl

theorem spelling?_of_ofMark? (h : ofMark? c = some k) : k.spelling? = some (String.ofList [c]) := by
  unfold ofMark? at h
  split at h <;> cases h <;> rfl

theorem spelling?_of_ofPair? (h : ofPair? c d = some k) :
    k.spelling? = some (String.ofList [c, d]) := by
  unfold ofPair? at h
  split at h <;> cases h <;> rfl

/-- The first character of a mark of two characters is a mark by itself. -/
theorem ofMark?_ne_none_of_ofPair? (h : ofPair? c d = some k) : ofMark? c ≠ none := by
  unfold ofPair? at h
  split at h
  · decide
  · decide
  · cases h

theorem ofPair?_eq_none_of_ofMark? (h : ofMark? c = none) : ofPair? c d = none := by
  cases hp : ofPair? c d with
  | none => rfl
  | some k => exact absurd h (ofMark?_ne_none_of_ofPair? hp)

/-- The second character of a mark of two characters is a mark by itself, too. -/
theorem ofMark?_second_ne_none (h : ofPair? c d = some k) : ofMark? d ≠ none := by
  unfold ofPair? at h
  split at h
  · decide
  · decide
  · cases h

end Kind

namespace Lexeme

/-- The legal spellings of the kinds. -/
inductive Spelled : Lexeme → Prop where
  | integer {digits : List Char} (hne : digits ≠ []) (h : ∀ c ∈ digits, c.isDigit = true) :
      Spelled ⟨.integer, digits⟩
  | word {letters : List Char} (hne : letters ≠ []) (h : ∀ c ∈ letters, c.isAlpha = true) :
      Spelled (word letters)
  | mark {c : Char} {k : Kind} (h : Kind.ofMark? c = some k) : Spelled ⟨k, [c]⟩
  | pair {c d : Char} {k : Kind} (h : Kind.ofPair? c d = some k) : Spelled ⟨k, [c, d]⟩
  | illegal {c : Char} (hgap : isGap c = false) (hnul : c ≠ '\x00') (hdigit : c.isDigit = false)
      (halpha : c.isAlpha = false) (hmark : Kind.ofMark? c = none) : Spelled ⟨.illegal, [c]⟩

/-- The text behind a lexeme does not go on with it. -/
def EndsBefore (l : Lexeme) (rest : List Char) : Prop :=
  ∀ d ∈ rest.head?, ∀ c ∈ l.chars.getLast?, (c.isDigit = true → d.isDigit = false) ∧
    (c.isAlpha = true → d.isAlpha = false) ∧ (l.chars = [c] → Kind.ofPair? c d = none)

variable {l : Lexeme} {rest : List Char}

/-- A digit, a letter and a mark are neither a gap nor the end of a text. -/
theorem begins_of_class (h : c.isDigit = true ∨ c.isAlpha = true ∨ Kind.ofMark? c ≠ none) :
    isGap c = false ∧ c ≠ '\x00' := by
  refine ⟨?_, fun hc => ?_⟩
  · cases hgap : isGap c with
    | false => rfl
    | true =>
      simp only [isGap, Bool.or_eq_true, beq_iff_eq] at hgap
      rcases hgap with ((rfl | rfl) | rfl) | rfl <;> exact absurd h (by decide)
  · subst hc
    exact absurd h (by decide)

theorem not_isDigit_of_isAlpha (h : c.isAlpha = true) : c.isDigit = false := by
  cases hd : c.isDigit with
  | false => rfl
  | true =>
    obtain ⟨-, h9⟩ := Char.isDigit_iff_toNat.1 hd
    have hnine : '9'.toNat = 57 := rfl
    rcases Bool.or_eq_true_iff.1 h with h | h
    · have hA : 'A'.toNat ≤ c.toNat := UInt32.le_iff_toNat_le.1 (of_decide_eq_true h).1
      have hupper : 'A'.toNat = 65 := rfl
      omega
    · have ha : 'a'.toNat ≤ c.toNat :=
        UInt32.le_iff_toNat_le.1 (of_decide_eq_true (Bool.and_eq_true_iff.1 h).1)
      have hlower : 'a'.toNat = 97 := rfl
      omega

/-- How a spelling begins. -/
theorem Spelled.begins (h : l.Spelled) :
    ∃ c cs, l.chars = c :: cs ∧ isGap c = false ∧ c ≠ '\x00' := by
  cases h with
  | @integer digits hne h =>
    obtain ⟨c, cs, rfl⟩ := List.exists_cons_of_ne_nil hne
    exact ⟨c, cs, rfl, begins_of_class (.inl (h c List.mem_cons_self))⟩
  | @word letters hne h =>
    obtain ⟨c, cs, rfl⟩ := List.exists_cons_of_ne_nil hne
    exact ⟨c, cs, rfl, begins_of_class (.inr (.inl (h c List.mem_cons_self)))⟩
  | @mark c k h => exact ⟨c, [], rfl, begins_of_class (.inr (.inr (by simp [h])))⟩
  | @pair c d k h =>
    exact ⟨c, [d], rfl, begins_of_class (.inr (.inr (Kind.ofMark?_ne_none_of_ofPair? h)))⟩
  | @illegal c hgap hnul => exact ⟨c, [], rfl, hgap, hnul⟩

/-- Only two marks begin with an equals sign. -/
theorem Spelled.head_ne (h : l.Spelled) (ha : l.kind ≠ .assign) (he : l.kind ≠ .equals) :
    ∃ c cs, l.chars = c :: cs ∧ c ≠ '=' := by
  obtain ⟨c, cs, hcs, -, -⟩ := h.begins
  refine ⟨c, cs, hcs, ?_⟩
  rintro rfl
  cases h with
  | integer hne h =>
    obtain rfl := hcs
    exact absurd (h _ List.mem_cons_self) (by decide)
  | word hne h =>
    obtain rfl := hcs
    exact absurd (h _ List.mem_cons_self) (by decide)
  | mark h =>
    obtain ⟨rfl, rfl⟩ := List.cons.inj hcs
    cases h
    exact absurd rfl ha
  | @pair c d k h =>
    obtain ⟨rfl, rfl⟩ := List.cons.inj hcs
    unfold Kind.ofPair? at h
    split at h <;> cases h
    · exact absurd rfl he
    · next hc => exact absurd hc (by decide)
  | illegal _ _ _ _ hmark =>
    obtain ⟨rfl, rfl⟩ := List.cons.inj hcs
    cases hmark

/-- A kind with only one spelling is spelled so. -/
theorem Spelled.chars_eq {text : String} (h : l.Spelled) (hk : l.kind.spelling? = some text) :
    l.chars = text.toList := by
  cases h with
  | integer => cases hk
  | @word letters =>
    rw [Lexeme.word, Kind.ofWord] at hk
    cases hw : Kind.ofReserved? (String.ofList letters) with
    | none =>
      rw [hw] at hk
      cases hk
    | some k =>
      rw [hw, Option.getD_some, Kind.spelling?_of_ofReserved? hw, Option.some.injEq] at hk
      rw [← hk, String.toList_ofList]
      rfl
  | mark h =>
    rw [Kind.spelling?_of_ofMark? h, Option.some.injEq] at hk
    rw [← hk, String.toList_ofList]
  | pair h =>
    rw [Kind.spelling?_of_ofPair? h, Option.some.injEq] at hk
    rw [← hk, String.toList_ofList]
  | illegal => cases hk

/-- A number is spelled with digits. -/
theorem Spelled.digits (h : l.Spelled) (hk : l.kind = .integer) :
    l.chars ≠ [] ∧ ∀ c ∈ l.chars, c.isDigit = true := by
  -- a number has no spelling of its own, unlike a mark or a reserved word
  cases h with
  | integer hne h => exact ⟨hne, h⟩
  | @word letters =>
    rw [Lexeme.word, Kind.ofWord] at hk
    cases hw : Kind.ofReserved? (String.ofList letters) with
    | none =>
      rw [hw] at hk
      cases hk
    | some k =>
      rw [hw, Option.getD_some] at hk
      subst hk
      cases Kind.spelling?_of_ofReserved? hw
  | mark h =>
    subst hk
    cases Kind.spelling?_of_ofMark? h
  | pair h =>
    subst hk
    cases Kind.spelling?_of_ofPair? h
  | illegal => cases hk

/-- A run of characters of a class ends where a character of another class stands. -/
theorem takeWhile_run {p : Char → Bool} {cs : List Char} (h : ∀ c ∈ cs, p c = true)
    (hr : ∀ d ∈ rest.head?, p d = false) :
    (cs ++ rest).takeWhile p = cs ∧ (cs ++ rest).dropWhile p = rest := by
  rw [List.takeWhile_append_of_pos h, List.dropWhile_append_of_pos h]
  cases rest with
  | nil => simp
  | cons d rest => simp [hr d rfl]

/-- No mark of two characters begins with a character that is no mark itself. -/
theorem pair?_eq_none (h : Kind.ofMark? c = none) (cs : List Char) : pair? c cs = none := by
  cases cs with
  | nil => rfl
  | cons d cs => rw [pair?, Kind.ofPair?_eq_none_of_ofMark? h, Option.map_none]

theorem first_of_ofMark?_eq_none (h : Kind.ofMark? c = none) (cs : List Char) :
    first c cs = run c cs := by
  rw [first, pair?_eq_none h, h]

/-- **A lexeme is read back from its spelling**, where what follows does not go on with it. -/
theorem first?_of_spelled (h : l.Spelled) (hr : l.EndsBefore rest) :
    first? (l.chars ++ rest) = some (l, rest) := by
  obtain ⟨c, cs, hcs, -, hnul⟩ := h.begins
  have hfirst : first? (l.chars ++ rest) = some (first c (cs ++ rest)) := by
    rw [hcs, List.cons_append, first?, if_neg hnul]
  rw [hfirst]
  cases h with
  | @integer digits hne h =>
    obtain rfl : digits = c :: cs := hcs
    have hc := h c List.mem_cons_self
    -- the last digit is followed by no digit, so the run of digits stops there
    have hstop : ∀ d ∈ rest.head?, d.isDigit = false := by
      intro d hd
      have hlast := h _ (List.getLast_mem hne)
      exact (hr d hd _ (List.getLast?_eq_some_getLast hne)).1 hlast
    obtain ⟨htake, hdrop⟩ := takeWhile_run (fun x hx => h x (List.mem_cons_of_mem c hx)) hstop
    rw [first_of_ofMark?_eq_none (Kind.ofMark?_eq_none_of_isDigit hc), run, if_pos hc, htake, hdrop]
  | @word letters hne h =>
    obtain rfl : letters = c :: cs := hcs
    have hc := h c List.mem_cons_self
    have hstop : ∀ d ∈ rest.head?, d.isAlpha = false := by
      intro d hd
      have hlast := h _ (List.getLast_mem hne)
      exact (hr d hd _ (List.getLast?_eq_some_getLast hne)).2.1 hlast
    obtain ⟨htake, hdrop⟩ := takeWhile_run (fun x hx => h x (List.mem_cons_of_mem c hx)) hstop
    rw [first_of_ofMark?_eq_none (Kind.ofMark?_eq_none_of_isAlpha hc), run,
      if_neg (by simp [not_isDigit_of_isAlpha hc]), if_pos hc, htake, hdrop]
  | @mark c' k h =>
    obtain ⟨rfl, rfl⟩ := List.cons.inj hcs
    -- a mark of two characters would be read first, but none begins here
    have hpair : pair? c' rest = none := by
      cases rest with
      | nil => rfl
      | cons d rest => rw [pair?, (hr d rfl c' rfl).2.2 rfl, Option.map_none]
    rw [List.nil_append, first, hpair, h]
  | @pair c' d k h =>
    obtain ⟨rfl, rfl⟩ := List.cons.inj hcs
    rw [List.singleton_append, first, pair?, h, Option.map_some]
  | @illegal c' hgap _ hdigit halpha hmark =>
    obtain ⟨rfl, rfl⟩ := List.cons.inj hcs
    rw [List.nil_append, first_of_ofMark?_eq_none hmark, run, if_neg (by simp [hdigit]),
      if_neg (by simp [halpha])]

/-- In a spelling stands nothing that may stand between lexemes, and not the character zero. -/
theorem Spelled.chars_class (h : l.Spelled) : ∀ c ∈ l.chars, isGap c = false ∧ c ≠ '\x00' := by
  intro c hc
  cases h with
  | integer hne h => exact begins_of_class (.inl (h c hc))
  | word hne h => exact begins_of_class (.inr (.inl (h c hc)))
  | mark h =>
    obtain rfl := List.mem_singleton.1 hc
    exact begins_of_class (.inr (.inr (by simp [h])))
  | pair h =>
    have hmark : Kind.ofMark? c ≠ none := by
      rcases List.mem_cons.1 hc with rfl | hd
      · exact Kind.ofMark?_ne_none_of_ofPair? h
      · obtain rfl := List.mem_singleton.1 hd
        exact Kind.ofMark?_second_ne_none h
    exact begins_of_class (.inr (.inr hmark))
  | illegal hgap hnul =>
    obtain rfl := List.mem_singleton.1 hc
    exact ⟨hgap, hnul⟩

/-- What follows the longest run of a class is not of it. -/
theorem class_of_head?_dropWhile {p : Char → Bool} {cs : List Char} (d : Char)
    (hd : d ∈ (cs.dropWhile p).head?) : p d = false := by
  have hstop := List.head?_dropWhile_not p cs
  rw [Option.mem_def.1 hd] at hstop
  simpa using hstop

theorem integer_endsBefore {digits : List Char} (h : ∀ c ∈ digits, c.isDigit = true)
    (hrest : ∀ d ∈ rest.head?, d.isDigit = false) : EndsBefore ⟨.integer, digits⟩ rest := by
  intro d hd c hc
  have hdigit : c.isDigit = true := h c (List.mem_of_getLast? hc)
  refine ⟨fun _ => hrest d hd, fun halpha => ?_, fun _ => ?_⟩
  · rw [not_isDigit_of_isAlpha halpha] at hdigit
    cases hdigit
  · exact Kind.ofPair?_eq_none_of_ofMark? (Kind.ofMark?_eq_none_of_isDigit hdigit)

theorem letters_endsBefore {letters : List Char} (h : ∀ c ∈ letters, c.isAlpha = true)
    (hrest : ∀ d ∈ rest.head?, d.isAlpha = false) : EndsBefore ⟨k, letters⟩ rest := by
  intro d hd c hc
  have halpha : c.isAlpha = true := h c (List.mem_of_getLast? hc)
  refine ⟨fun hdigit => ?_, fun _ => hrest d hd, fun _ => ?_⟩
  · rw [not_isDigit_of_isAlpha halpha] at hdigit
    cases hdigit
  · exact Kind.ofPair?_eq_none_of_ofMark? (Kind.ofMark?_eq_none_of_isAlpha halpha)

/-- A single character ends where it is not made a mark of two characters. -/
theorem endsBefore_mark (h : c.isDigit = false ∧ c.isAlpha = false)
    (hrest : ∀ d ∈ rest.head?, Kind.ofPair? c d = none) : EndsBefore ⟨k, [c]⟩ rest := by
  intro d hd c' hc
  cases hc
  exact ⟨fun h' => by simp [h.1] at h', fun h' => by simp [h.2] at h', fun _ => hrest d hd⟩

/-- Nothing goes on with a mark of two characters. -/
theorem endsBefore_pair (h : Kind.ofPair? c d = some k) : EndsBefore ⟨k, [c, d]⟩ rest := by
  have hsecond := Kind.class_of_ofMark? (Kind.ofMark?_second_ne_none h)
  intro e _ x hx
  cases hx
  exact ⟨fun h' => by simp [hsecond.1] at h', fun h' => by simp [hsecond.2] at h',
    fun h' => by simp at h'⟩

/-- The longest run of digits or letters, or else a character that has no place in the language. -/
theorem run_spelled (hgap : isGap c = false) (hnul : c ≠ '\x00') (hmark : Kind.ofMark? c = none)
    (cs : List Char) : (run c cs).1.Spelled ∧ (run c cs).1.EndsBefore (run c cs).2 := by
  unfold run
  by_cases hdigit : c.isDigit = true
  · rw [if_pos hdigit]
    have hdigits : ∀ d ∈ c :: cs.takeWhile Char.isDigit, d.isDigit = true :=
      List.forall_mem_cons.2 ⟨hdigit, List.all_eq_true.1 List.all_takeWhile⟩
    exact ⟨.integer (List.cons_ne_nil _ _) hdigits,
      integer_endsBefore hdigits class_of_head?_dropWhile⟩
  · rw [if_neg hdigit]
    by_cases halpha : c.isAlpha = true
    · rw [if_pos halpha]
      have hletters : ∀ d ∈ c :: cs.takeWhile Char.isAlpha, d.isAlpha = true :=
        List.forall_mem_cons.2 ⟨halpha, List.all_eq_true.1 List.all_takeWhile⟩
      exact ⟨.word (List.cons_ne_nil _ _) hletters,
        letters_endsBefore hletters class_of_head?_dropWhile⟩
    · rw [if_neg halpha]
      rw [Bool.not_eq_true] at hdigit halpha
      exact ⟨.illegal hgap hnul hdigit halpha hmark,
        endsBefore_mark ⟨hdigit, halpha⟩ fun _ _ => Kind.ofPair?_eq_none_of_ofMark? hmark⟩

/-- **What is read is spelled**, and it ends where what follows does not go on with it. -/
theorem first_spelled (hgap : isGap c = false) (hnul : c ≠ '\x00') (cs : List Char) :
    (first c cs).1.Spelled ∧ (first c cs).1.EndsBefore (first c cs).2 := by
  cases hmark : Kind.ofMark? c with
  | none =>
    rw [first_of_ofMark?_eq_none hmark]
    exact run_spelled hgap hnul hmark cs
  | some k =>
    have hclass := Kind.class_of_ofMark? (c := c) (by simp [hmark])
    cases cs with
    | nil =>
      rw [first, pair?, hmark]
      exact ⟨.mark hmark, endsBefore_mark hclass fun d hd => by cases hd⟩
    | cons d ds =>
      cases hpair : Kind.ofPair? c d with
      | none =>
        rw [first, pair?, hpair, hmark]
        refine ⟨.mark hmark, endsBefore_mark hclass ?_⟩
        rintro d ⟨⟩
        exact hpair
      | some l =>
        rw [first, pair?, hpair]
        exact ⟨.pair hpair, endsBefore_pair hpair⟩

end Lexeme

end Monkey

import Monkey.Proofs.Layout

/-!
# Splitting

The tokens of a text are the only way to split it: up to the first character zero it is cut into
lexemes, each at its place behind a gap that may be empty, and each legal in front of what follows
(`Lexeme.Legal`, `Splits`). The rules for lexemes are told by the spellings of the kinds alone, and
not by the order in which a scanner tries them (`Lexeme.legal_iff`). Every scanner splits what it
reads (`Scanner.drain_splits`), and whatever splits a text is what a scanner yields
(`Splits.drain_eq`). Main statement: `splits_iff_eq_tokenize`.
-/

namespace Monkey

open Lexeme

/-- A lexeme at an offset, as a token. -/
def Lexeme.placed (l : Lexeme) (start : Nat) : Token :=
  ⟨l.kind, String.ofList l.chars, .between start (start + Text.width l.chars)⟩

/-- What may stand as a lexeme in front of a text. -/
inductive Lexeme.Legal : Lexeme → List Char → Prop where
  /-- Digits, as many as there are. -/
  | integer {digits rest : List Char} (hne : digits ≠ []) (h : ∀ c ∈ digits, c.isDigit = true)
      (hrest : ∀ d ∈ rest.head?, d.isDigit = false) : Legal ⟨.integer, digits⟩ rest
  /-- Letters, as many as there are, that spell a reserved word. -/
  | reserved {k : Kind} {letters rest : List Char} (h : ∀ c ∈ letters, c.isAlpha = true)
      (hrest : ∀ d ∈ rest.head?, d.isAlpha = false)
      (hk : k.spelling? = some (String.ofList letters)) : Legal ⟨k, letters⟩ rest
  /-- Letters, as many as there are, that spell none. -/
  | identifier {letters rest : List Char} (hne : letters ≠ [])
      (h : ∀ c ∈ letters, c.isAlpha = true) (hrest : ∀ d ∈ rest.head?, d.isAlpha = false)
      (hk : ∀ k : Kind, k.spelling? ≠ some (String.ofList letters)) :
      Legal ⟨.identifier, letters⟩ rest
  | equals {rest : List Char} : Legal ⟨.equals, ['=', '=']⟩ rest
  | notEquals {rest : List Char} : Legal ⟨.notEquals, ['!', '=']⟩ rest
  /-- Any other mark, but none that an equals sign makes another mark of. -/
  | mark {k : Kind} {c : Char} {rest : List Char} (hk : k.spelling? = some (String.ofList [c]))
      (hrest : k = .assign ∨ k = .bang → ∀ d ∈ rest.head?, d ≠ '=') : Legal ⟨k, [c]⟩ rest
  /-- Any other character. -/
  | illegal {c : Char} {rest : List Char} (hgap : isGap c = false) (hnul : c ≠ '\x00')
      (hdigit : c.isDigit = false) (halpha : c.isAlpha = false)
      (hk : ∀ k : Kind, k.spelling? ≠ some (String.ofList [c])) : Legal ⟨.illegal, [c]⟩ rest

/-- What is read of a text: what stands before the first character zero. -/
def Text.beforeZero (cs : List Char) : List Char := cs.takeWhile (· ≠ '\x00')

/-- The tokens split the text that begins at an offset. -/
inductive Splits : Nat → List Char → List Token → Prop where
  | ending {start : Nat} {gap : List Char} (hgap : ∀ c ∈ gap, isGap c = true) :
      Splits start gap [.ending (start + Text.width gap)]
  | lexeme {start : Nat} {gap cs : List Char} {l : Lexeme} {ts : List Token}
      (hgap : ∀ c ∈ gap, isGap c = true) (hl : l.Legal cs)
      (h : Splits (start + Text.width gap + Text.width l.chars) cs ts) :
      Splits start (gap ++ (l.chars ++ cs)) (l.placed (start + Text.width gap) :: ts)

variable {start : Nat} {cs rest : List Char} {l : Lexeme} {ts : List Token} {source : String}

namespace Kind

variable {k : Kind} {c d : Char} {text : String}

/-- What has a spelling of its own is a reserved word or a mark. -/
theorem spelling?_cases (h : k.spelling? = some text) :
    ofReserved? text = some k ∨ (∃ c, text = String.ofList [c] ∧ ofMark? c = some k) ∨
      ∃ c d, text = String.ofList [c, d] ∧ ofPair? c d = some k := by
  cases k <;> cases h
  all_goals first
    | exact .inl rfl
    | exact .inr (.inl ⟨_, rfl, rfl⟩)
    | exact .inr (.inr ⟨_, _, rfl, rfl⟩)

/-- The only spellings that are made of letters are reserved words. -/
theorem ofReserved?_of_spelling? {letters : List Char} (h : ∀ c ∈ letters, c.isAlpha = true)
    (hk : k.spelling? = some (String.ofList letters)) :
    ofReserved? (String.ofList letters) = some k := by
  rcases spelling?_cases hk with hreserved | ⟨c, htext, hmark⟩ | ⟨c, d, htext, hpair⟩
  · exact hreserved
  · obtain rfl := String.ofList_injective htext
    rw [ofMark?_eq_none_of_isAlpha (h c List.mem_cons_self)] at hmark
    cases hmark
  · obtain rfl := String.ofList_injective htext
    rw [ofPair?_eq_none_of_ofMark? (ofMark?_eq_none_of_isAlpha (h c List.mem_cons_self))] at hpair
    cases hpair

theorem ofReserved?_singleton (c : Char) : ofReserved? (String.ofList [c]) = none := by
  unfold ofReserved?
  split <;> first | rfl | next h => cases String.ofList_injective h

/-- The only spellings that are one character are marks. -/
theorem ofMark?_of_spelling? (hk : k.spelling? = some (String.ofList [c])) :
    ofMark? c = some k := by
  rcases spelling?_cases hk with hreserved | ⟨d, htext, hmark⟩ | ⟨d, e, htext, -⟩
  · rw [ofReserved?_singleton] at hreserved
    cases hreserved
  · obtain ⟨rfl, -⟩ := List.cons.inj (String.ofList_injective htext)
    exact hmark
  · cases String.ofList_injective htext

/-- Only an equals sign makes another mark of a mark, and only of two of them. -/
theorem ofPair?_eq_none_iff (hmark : ofMark? c = some k) :
    ofPair? c d = none ↔ (k = .assign ∨ k = .bang → d ≠ '=') := by
  constructor
  · rintro hpair hk rfl
    rcases hk with rfl | rfl
    all_goals
      unfold ofMark? at hmark
      split at hmark <;> cases hmark
      cases hpair
  · intro hrest
    unfold ofPair?
    split
    · cases hmark
      exact absurd rfl (hrest (.inl rfl))
    · cases hmark
      exact absurd rfl (hrest (.inr rfl))
    · rfl

end Kind

namespace Lexeme

theorem word_of_spelling? {k : Kind} {letters : List Char} (h : ∀ c ∈ letters, c.isAlpha = true)
    (hk : k.spelling? = some (String.ofList letters)) : word letters = ⟨k, letters⟩ := by
  rw [word, Kind.ofWord, Kind.ofReserved?_of_spelling? h hk, Option.getD_some]

/-- What is spelled is legal where what follows does not go on with it. -/
theorem Spelled.legal (h : l.Spelled) (hrest : l.EndsBefore rest) : l.Legal rest := by
  cases h with
  | integer hne h =>
    refine .integer hne h fun d hd => ?_
    exact (hrest d hd _ (List.getLast?_eq_some_getLast hne)).1 (h _ (List.getLast_mem hne))
  | @word letters hne h =>
    have hstop : ∀ d ∈ rest.head?, d.isAlpha = false := fun d hd =>
      (hrest d hd _ (List.getLast?_eq_some_getLast hne)).2.1 (h _ (List.getLast_mem hne))
    rw [Lexeme.word, Kind.ofWord]
    cases hw : Kind.ofReserved? (String.ofList letters) with
    | none =>
      refine .identifier hne h hstop fun k hk => ?_
      rw [Kind.ofReserved?_of_spelling? h hk] at hw
      cases hw
    | some k => exact .reserved h hstop (Kind.spelling?_of_ofReserved? hw)
  | @mark c k h =>
    refine .mark (Kind.spelling?_of_ofMark? h) fun hk d hd => ?_
    exact (Kind.ofPair?_eq_none_iff h).1 ((hrest d hd c rfl).2.2 rfl) hk
  | pair h =>
    unfold Kind.ofPair? at h
    split at h <;> cases h
    · exact .equals
    · exact .notEquals
  | illegal hgap hnul hdigit halpha hmark =>
    refine .illegal hgap hnul hdigit halpha fun k hk => ?_
    rw [Kind.ofMark?_of_spelling? hk] at hmark
    cases hmark

/-- **The rules for lexemes** are those by which they are read. -/
theorem legal_iff : l.Legal rest ↔ l.Spelled ∧ l.EndsBefore rest := by
  refine ⟨fun h => ?_, fun h => h.1.legal h.2⟩
  cases h with
  | integer hne h hstop => exact ⟨.integer hne h, integer_endsBefore h hstop⟩
  | @reserved k letters _ h hstop hk =>
    have hne : letters ≠ [] := by
      rintro rfl
      cases Kind.ofReserved?_of_spelling? h hk
    rw [← word_of_spelling? h hk]
    exact ⟨.word hne h, letters_endsBefore h hstop⟩
  | @identifier letters _ hne h hstop hk =>
    have hword : word letters = ⟨.identifier, letters⟩ := by
      rw [word, Kind.ofWord]
      cases hw : Kind.ofReserved? (String.ofList letters) with
      | none => rfl
      | some k => exact absurd (Kind.spelling?_of_ofReserved? hw) (hk k)
    rw [← hword]
    exact ⟨.word hne h, letters_endsBefore h hstop⟩
  | equals => exact ⟨.pair rfl, endsBefore_pair rfl⟩
  | notEquals => exact ⟨.pair rfl, endsBefore_pair rfl⟩
  | @mark k c _ hk hstop =>
    have hmark := Kind.ofMark?_of_spelling? hk
    refine ⟨.mark hmark, endsBefore_mark (Kind.class_of_ofMark? (by simp [hmark])) ?_⟩
    intro d hd
    exact (Kind.ofPair?_eq_none_iff hmark).2 fun hk => hstop hk d hd
  | @illegal c _ hgap hnul hdigit halpha hk =>
    have hmark : Kind.ofMark? c = none := by
      cases hmark : Kind.ofMark? c with
      | none => rfl
      | some k => exact absurd (Kind.spelling?_of_ofMark? hmark) (hk k)
    exact ⟨.illegal hgap hnul hdigit halpha hmark,
      endsBefore_mark ⟨hdigit, halpha⟩ fun _ _ => Kind.ofPair?_eq_none_of_ofMark? hmark⟩

end Lexeme

namespace Text

theorem beforeZero_append (h : ∀ c ∈ cs, c ≠ '\x00') (rest : List Char) :
    beforeZero (cs ++ rest) = cs ++ beforeZero rest :=
  List.takeWhile_append_of_pos fun c hc => by simpa using h c hc

/-- What stands behind a character zero is not read. -/
theorem beforeZero_append_zero (cs rest : List Char) :
    beforeZero (cs ++ '\x00' :: rest) = beforeZero cs := by
  induction cs with
  | nil => rfl
  | cons c cs ih =>
    unfold beforeZero at ih ⊢
    rw [List.cons_append, List.takeWhile_cons, List.takeWhile_cons, ih]

/-- Behind what is read a text is at its end. -/
theorem beforeZero_rest (cs : List Char) :
    ∃ rest, cs = beforeZero cs ++ rest ∧ ∀ c ∈ rest.head?, c = '\x00' := by
  refine ⟨cs.dropWhile (· ≠ '\x00'), List.takeWhile_append_dropWhile.symm, ?_⟩
  intro c hc
  simpa using class_of_head?_dropWhile c hc

theorem beforeZero_of_head? (h : ∀ c ∈ rest.head?, c = '\x00') : beforeZero rest = [] := by
  cases rest with
  | nil => rfl
  | cons c rest =>
    obtain rfl := h c rfl
    rfl

/-- What follows is the same character, or the text is at its end. -/
theorem head?_beforeZero {d : Char} (h : d ∈ (beforeZero cs).head?) : d ∈ cs.head? := by
  cases cs with
  | nil => exact h
  | cons c cs =>
    unfold beforeZero at h
    rw [List.takeWhile_cons] at h
    split at h
    · exact h
    · cases h

end Text

theorem not_zero_of_isGap {c : Char} (h : isGap c = true) : c ≠ '\x00' := by
  rintro rfl
  cases h

/-- No lexeme begins exactly where a text is at its end. -/
theorem Lexeme.first?_eq_none_iff : first? cs = none ↔ ∀ c ∈ cs.head?, c = '\x00' := by
  cases cs with
  | nil => simp [first?]
  | cons c cs =>
    rw [first?]
    split
    · next hc => simp [hc]
    · next hc => simp [hc]

theorem Lexeme.EndsBefore.beforeZero (h : l.EndsBefore cs) : l.EndsBefore (Text.beforeZero cs) :=
  fun d hd => h d (Text.head?_beforeZero hd)

/-- The end of a text does not go on with a lexeme. -/
theorem Lexeme.EndsBefore.append (h : l.EndsBefore cs) (hrest : ∀ c ∈ rest.head?, c = '\x00') :
    l.EndsBefore (cs ++ rest) := by
  cases cs with
  | cons c cs => exact h
  | nil =>
    have hapart : Apart rest := by
      intro d hd
      obtain rfl := hrest d hd
      decide
    exact hapart.endsBefore l

/-- A scanner that reads a token reads a lexeme behind a gap. -/
theorem Scanner.read?_cases {s r : Scanner} {t : Token} (h : s.read? = some (t, r)) :
    ∃ gap, ∃ l : Lexeme, (∀ c ∈ gap, isGap c = true) ∧ l.Spelled ∧ l.EndsBefore r.rest ∧
      s.rest = gap ++ (l.chars ++ r.rest) ∧ t = l.placed (s.offset + Text.width gap) ∧
      r.offset = s.offset + Text.width gap + Text.width l.chars := by
  obtain ⟨⟨l, rest⟩, hl, he⟩ := Option.map_eq_some_iff.1 h
  obtain ⟨rfl, rfl⟩ := Prod.mk.inj he
  have happend := append_of_first? hl
  refine ⟨s.rest.takeWhile isGap, l, List.all_eq_true.1 List.all_takeWhile, ?_⟩
  have hspelled : l.Spelled ∧ l.EndsBefore rest := by
    cases hs : s.rest.dropWhile isGap with
    | nil =>
      rw [skipGap, hs] at hl
      cases hl
    | cons c cs =>
      rw [skipGap, hs, first?] at hl
      split at hl
      · cases hl
      · next hnul =>
        have hgap : isGap c = false := class_of_head?_dropWhile c (by rw [hs]; rfl)
        have hread := first_spelled hgap hnul cs
        rwa [Option.some.inj hl] at hread
  refine ⟨hspelled.1, hspelled.2, ?_, rfl, rfl⟩
  rw [happend]
  exact List.takeWhile_append_dropWhile.symm

/-- **A scanner splits what it reads.** -/
theorem Scanner.drain_splits (s : Scanner) :
    Splits s.offset (Text.beforeZero s.rest) s.drain.toList := by
  induction hm : s.rest.length using Nat.strongRecOn generalizing s with
  | ind m ih =>
    subst hm
    cases hr : s.read? with
    | none =>
      have hend : first? (s.rest.dropWhile isGap) = none := Option.map_eq_none_iff.1 hr
      have hgap : ∀ c ∈ s.rest.takeWhile isGap, isGap c = true :=
        List.all_eq_true.1 List.all_takeWhile
      have hbefore : Text.beforeZero s.rest = s.rest.takeWhile isGap := by
        calc Text.beforeZero s.rest
            = Text.beforeZero (s.rest.takeWhile isGap ++ s.rest.dropWhile isGap) := by
              rw [List.takeWhile_append_dropWhile]
          _ = s.rest.takeWhile isGap ++ Text.beforeZero (s.rest.dropWhile isGap) :=
              Text.beforeZero_append (fun c hc => not_zero_of_isGap (hgap c hc)) _
          _ = s.rest.takeWhile isGap := by
              rw [Text.beforeZero_of_head? (first?_eq_none_iff.1 hend), List.append_nil]
      rw [drain_of_read?_none hr, hbefore]
      exact .ending hgap
    | some read =>
      obtain ⟨t, r⟩ := read
      obtain ⟨gap, l, hgap, hl, hcs, hrest, rfl, hoffset⟩ := read?_cases hr
      have hbefore : Text.beforeZero s.rest = gap ++ (l.chars ++ Text.beforeZero r.rest) := by
        rw [hrest, Text.beforeZero_append fun c hc => not_zero_of_isGap (hgap c hc),
          Text.beforeZero_append fun c hc => (hl.chars_class c hc).2]
      have hbehind := ih _ (read?_rest_length hr) r rfl
      rw [hoffset] at hbehind
      rw [drain_of_read?_some hr, hbefore]
      exact .lexeme hgap (hl.legal hcs.beforeZero) hbehind

/-- **What splits a text is what a scanner yields**, whatever stands behind the end of the text. -/
theorem Splits.drain_eq (h : Splits start cs ts) (hrest : ∀ c ∈ rest.head?, c = '\x00') :
    (Scanner.drain ⟨start, cs ++ rest⟩).toList = ts := by
  induction h with
  | @ending start gap hgap =>
    have hstop : ∀ c ∈ rest.head?, isGap c = false := by
      intro c hc
      obtain rfl := hrest c hc
      rfl
    obtain ⟨htake, hdrop⟩ := takeWhile_run hgap hstop
    have hread : Scanner.read? ⟨start, gap ++ rest⟩ = none :=
      Scanner.read?_eq_none (by rw [hdrop]; exact first?_eq_none_iff.2 hrest)
    rw [Scanner.drain_of_read?_none hread, Scanner.skipGap, htake]
    rfl
  | @lexeme start gap cs l ts hgap hl _ ih =>
    obtain ⟨hspelled, hcs⟩ := legal_iff.1 hl
    have hread := Scanner.read?_of_spelled hgap hspelled (hcs.append hrest) start
    rw [List.append_assoc, List.append_assoc, Scanner.drain_of_read?_some hread]
    exact congrArg _ ih

theorem splits_tokenize (source : String) :
    Splits 0 (Text.beforeZero source.toList) (tokenize source) :=
  Scanner.drain_splits (.ofString source)

theorem Splits.eq_tokenize (h : Splits 0 (Text.beforeZero source.toList) ts) :
    ts = tokenize source := by
  obtain ⟨rest, hsource, hrest⟩ := Text.beforeZero_rest source.toList
  have hdrain := h.drain_eq hrest
  rw [← hsource] at hdrain
  exact hdrain.symm

/-- **The tokens of a text are the only way to split it** up to the first character zero into
lexemes, each as long as can be. -/
theorem splits_iff_eq_tokenize :
    Splits 0 (Text.beforeZero source.toList) ts ↔ ts = tokenize source := by
  constructor
  · exact Splits.eq_tokenize
  · rintro rfl
    exact splits_tokenize source

example : tokenize "===" = [⟨.equals, "==", ⟨0, 2⟩⟩, ⟨.assign, "=", ⟨2, 3⟩⟩, .ending 3] := by
  decide +kernel

end Monkey

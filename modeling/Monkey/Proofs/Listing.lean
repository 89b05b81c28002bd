import Monkey.CommandLine
import Monkey.Proofs.Layout
import Monkey.Proofs.Lines
import Monkey.Proofs.Quotation

/-!
# Listings

A listing shows the tokens of a text one in a line: the name of the kind, and the text between
quotes. No token breaks its line, and a line tells the kind and the text of its token, whichever
characters show by themselves between quotes. So a listing is cut into lines as the text into tokens
(`pieces_listingBy`), and texts with the same listing have the same lexemes. Main statement:
`listing_faithful`.
-/

namespace Monkey

open Text

/-- A token as a line shows it, by some way to put texts between quotes. -/
def Token.displayBy (q : Quotation) (t : Token) : String := t.kind.name ++ " " ++ q.quote t.text

/-- The tokens of a text, one in a line. -/
def listingBy (q : Quotation) (source : String) : String :=
  String.join ((tokenize source).map fun t => t.displayBy q ++ "\n")

variable (q : Quotation) {t u : Token} {c : Char} {cs ds : List Char}

namespace Kind

theorem isAlpha_of_mem_name {k : Kind} (h : c ∈ k.name.toList) : c.isAlpha = true := by
  have key : (all.all fun k => k.name.toList.all Char.isAlpha) = true := by decide +kernel
  exact List.all_eq_true.1 (List.all_eq_true.1 key k k.mem_all) c h

theorem space_notMem_name (k : Kind) : ' ' ∉ k.name.toList := fun h =>
  absurd (isAlpha_of_mem_name h) (by decide)

end Kind

namespace Token

theorem toList_displayBy (t : Token) :
    (t.displayBy q).toList = t.kind.name.toList ++ ' ' :: (q.quote t.text).toList := by
  simp [displayBy]

/-- **No token breaks its line.** -/
theorem isBreak_of_mem_displayBy (h : c ∈ (t.displayBy q).toList) : isBreak c = false := by
  rw [toList_displayBy] at h
  rcases List.mem_append.1 h with h | h
  · have halpha := Kind.isAlpha_of_mem_name h
    exact isBreak_of_isAlphanum (by simp [Char.isAlphanum, halpha])
  · rcases List.mem_cons.1 h with rfl | h
    · rfl
    · exact q.isBreak_of_mem h

theorem newline_notMem_displayBy (t : Token) : '\n' ∉ (t.displayBy q).toList := fun h =>
  absurd (isBreak_of_mem_displayBy q h) (by decide)

theorem return_notMem_displayBy (t : Token) : '\r' ∉ (t.displayBy q).toList := fun h =>
  absurd (isBreak_of_mem_displayBy q h) (by decide)

/-- **A line tells the kind and the text of its token.** -/
theorem displayBy_eq_iff : t.displayBy q = u.displayBy q ↔ t.kind = u.kind ∧ t.text = u.text := by
  constructor
  · intro h
    have hchars := congrArg String.toList h
    rw [toList_displayBy, toList_displayBy] at hchars
    -- the name of a kind goes as far as the first space
    obtain ⟨hname, hquote⟩ := cut_unique t.kind.space_notMem_name u.kind.space_notMem_name hchars
    exact ⟨Kind.name_injective (String.toList_injective hname),
      q.quote_injective (String.toList_injective hquote)⟩
  · rintro ⟨hkind, htext⟩
    rw [displayBy, displayBy, hkind, htext]

end Token

namespace Line

/-- Different texts are cut into different pieces. -/
theorem pieces_eq_iff : pieces cs = pieces ds ↔ cs = ds := by
  refine ⟨fun h => ?_, congrArg pieces⟩
  rw [← flatten_pieces cs, h, flatten_pieces]

theorem pieces_flatMap {ls : List (List Char)} (h : ∀ l ∈ ls, '\n' ∉ l) :
    pieces (ls.flatMap (· ++ ['\n'])) = ls.map (· ++ ['\n']) := by
  induction ls with
  | nil => rfl
  | cons l ls ih =>
    obtain ⟨hl, hls⟩ := List.forall_mem_cons.1 h
    rw [List.flatMap_cons, List.append_assoc, List.singleton_append, pieces_of_newline hl, ih hls,
      List.map_cons]

end Line

/-- **A listing is cut into lines as the text into tokens.** -/
theorem pieces_listingBy (source : String) : Line.pieces (listingBy q source).toList =
    (tokenize source).map fun t => (t.displayBy q).toList ++ ['\n'] := by
  have hlines : (listingBy q source).toList =
      ((tokenize source).map fun t => (t.displayBy q).toList).flatMap (· ++ ['\n']) := by
    simp [listingBy, String.toList_join, List.flatMap_map]
  have hclear : ∀ l ∈ (tokenize source).map fun t => (t.displayBy q).toList, '\n' ∉ l := by
    intro l hl
    obtain ⟨t, -, rfl⟩ := List.mem_map.1 hl
    exact t.newline_notMem_displayBy q
  rw [hlines, Line.pieces_flatMap hclear, List.map_map]
  rfl

/-- Lists are the same under two maps that tell the same items apart. -/
theorem map_eq_map_iff_of_iff {α β γ : Type} {f : α → β} {g : α → γ}
    (h : ∀ a b, f a = f b ↔ g a = g b) {as bs : List α} :
    as.map f = bs.map f ↔ as.map g = bs.map g := by
  induction as generalizing bs with
  | nil => cases bs <;> simp
  | cons a as ih =>
    cases bs with
    | nil => simp
    | cons b bs => simp [h a b, ih]

/-- **Listings are faithful.** Whichever characters show by themselves between quotes: no token
breaks its line, a line tells the kind and the text of its token, and a listing tells the lexemes of
its text. The lines and the listings of the command line are among them. -/
theorem listing_faithful (q : Quotation) :
    (∀ t : Token, '\n' ∉ (t.displayBy q).toList ∧ '\r' ∉ (t.displayBy q).toList) ∧
      (∀ t u : Token, t.displayBy q = u.displayBy q ↔ t.kind = u.kind ∧ t.text = u.text) ∧
      (∀ source other, listingBy q source = listingBy q other ↔
        (tokenize source).map Token.lexeme = (tokenize other).map Token.lexeme) ∧
      (∀ t : Token, t.displayBy quotation = t.display) ∧
      ∀ (o : CommandLine.Options) (source : String),
        ({ o with tokens := true : CommandLine.Options }.outcome source).output =
          listingBy quotation source := by
  refine ⟨fun t => ⟨t.newline_notMem_displayBy q, t.return_notMem_displayBy q⟩,
    fun t u => Token.displayBy_eq_iff q, fun source other => ?_, fun t => rfl, fun o source => rfl⟩
  rw [← String.toList_inj, ← Line.pieces_eq_iff, pieces_listingBy, pieces_listingBy]
  apply map_eq_map_iff_of_iff
  intro t u
  rw [List.append_left_inj, String.toList_inj, Token.displayBy_eq_iff, Token.lexeme_eq_iff]

/-- A quote that has no place in the language, and the end of the text. -/
example : (tokenize "x \"").map Token.display =
    ["Identifier \"x\"", "Illegal \"\\\"\"", "EOF \"\""] := by decide +kernel

end Monkey

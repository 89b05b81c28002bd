import Monkey.Diagnostic.Report
import Monkey.Proofs.FaultOrder
import Monkey.Proofs.Lines
import Monkey.Proofs.Lossless

/-!
# Where reports point

There is a report of a line unless the place in it lies too far behind the indentation for a caret
(`Line.report?_of_lt`, `Line.report?_eq_none_iff`). A report ends with the line that its diagnostic
is about and a caret under it (`Line.Printed`). The line is cut out of the text around the token at
fault: indentation and blank space at the end fall away, and the token stays in the excerpt
(`Line.find?_around`). The dashes in front of the caret are as many as the bytes of the excerpt in
front of the token.

* `report_points`: so many bytes into the excerpt begins the token.
* `caret_under_iff`: the caret stands under the token exactly if each character that the excerpt
  holds in front of it takes one byte.
-/

namespace Monkey

open Text

/-- The signs of ASCII leave no blank space. -/
theorem Text.isBlank_eq_false {c : Char} (hlow : 0x20 < c.toNat) (hhigh : c.toNat < 0x7f) :
    isBlank c = false := by
  simp only [isBlank, Bool.or_eq_false_iff, Bool.and_eq_false_iff, decide_eq_false_iff_not,
    beq_eq_false_iff_ne]
  omega

theorem Text.isBlank_of_isDigit {c : Char} (h : c.isDigit = true) : isBlank c = false := by
  obtain ⟨hzero, hnine⟩ := Char.isDigit_iff_toNat.1 h
  have h48 : '0'.toNat = 48 := rfl
  have h57 : '9'.toNat = 57 := rfl
  exact isBlank_eq_false (by omega) (by omega)

theorem Text.isBlank_of_isAlpha {c : Char} (h : c.isAlpha = true) : isBlank c = false := by
  rcases Bool.or_eq_true_iff.1 h with h | h
  · have hA : 'A'.toNat ≤ c.toNat := UInt32.le_iff_toNat_le.1 (of_decide_eq_true h).1
    have hZ : c.toNat ≤ 'Z'.toNat := UInt32.le_iff_toNat_le.1 (of_decide_eq_true h).2
    have h65 : 'A'.toNat = 65 := rfl
    have h90 : 'Z'.toNat = 90 := rfl
    exact isBlank_eq_false (by omega) (by omega)
  · have ha : 'a'.toNat ≤ c.toNat :=
      UInt32.le_iff_toNat_le.1 (of_decide_eq_true (Bool.and_eq_true_iff.1 h).1)
    have hz : c.toNat ≤ 'z'.toNat :=
      UInt32.le_iff_toNat_le.1 (of_decide_eq_true (Bool.and_eq_true_iff.1 h).2)
    have h97 : 'a'.toNat = 97 := rfl
    have h122 : 'z'.toNat = 122 := rfl
    exact isBlank_eq_false (by omega) (by omega)

/-- Whether the text of a token is one blank character. -/
def Token.isBlank (t : Token) : Bool :=
  match t.text.toList with
  | [c] => Text.isBlank c
  | _ => false

/-- No character of a token is blank, unless the token is one blank character. -/
theorem Lexeme.Spelled.isBlank_eq_false {l : Lexeme} (h : l.Spelled) {t : Token}
    (ht : t.text.toList = l.chars) (hblank : t.isBlank = false) :
    ∀ c ∈ l.chars, Text.isBlank c = false := by
  rw [Token.isBlank, ht] at hblank
  cases h with
  | integer _ h => exact fun c hc => isBlank_of_isDigit (h c hc)
  | word _ h => exact fun c hc => isBlank_of_isAlpha (h c hc)
  | mark => exact List.forall_mem_singleton.2 hblank
  | pair h =>
    unfold Kind.ofPair? at h
    split at h <;> cases h <;>
      exact List.forall_mem_cons.2 ⟨by decide, List.forall_mem_singleton.2 (by decide)⟩
  | illegal => exact List.forall_mem_singleton.2 hblank

theorem Text.alignRight?_of_le {fill : Char} {field : Nat} {text : String}
    (h : field ≤ fieldLimit) : alignRight? fill field text =
      some (String.ofList (List.replicate (field - text.length) fill) ++ text) := if_pos h

theorem Text.alignRight?_eq_none_iff {fill : Char} {field : Nat} {text : String} :
    alignRight? fill field text = none ↔ fieldLimit < field := by
  unfold alignRight?
  split
  · next h => exact iff_of_false nofun (Nat.not_lt_of_le h)
  · next h => exact iff_of_true rfl (Nat.lt_of_not_le h)

namespace Line

variable {source : String} {cs front behind part : List Char} {l : Line}

/-- A text ends with two lines: under a number a part of the source, and a caret behind so many
dashes. -/
def Printed (report : String) (number : Nat) (excerpt : List Char) (dashes : Nat) : Prop :=
  ∃ above, pieces report.toList = above ++
    [(toString number).toList ++ " | ".toList ++ excerpt ++ ['\n'],
      List.replicate ((toString number).length + 1) ' ' ++ "| ".toList ++
        List.replicate dashes '-' ++ ['^', '\n']]

/-- Behind a newline a text is cut as if it began there. -/
theorem pieces_behind_newline (front cs : List Char) :
    ∃ above, pieces (front ++ '\n' :: cs) = above ++ pieces cs ∧ above ≠ [] := by
  induction front with
  | nil => exact ⟨[['\n']], rfl, List.cons_ne_nil _ _⟩
  | cons c front ih =>
    obtain ⟨above, habove, hne⟩ := ih
    obtain ⟨line, above, rfl⟩ := List.exists_cons_of_ne_nil hne
    rw [List.cons_append, pieces, habove]
    split
    · exact ⟨[c] :: line :: above, rfl, List.cons_ne_nil _ _⟩
    · exact ⟨(c :: line) :: above, rfl, List.cons_ne_nil _ _⟩

theorem newline_notMem_toString (n : Nat) : '\n' ∉ (toString n).toList := by
  intro hmem
  rw [Nat.toString_eq_repr, Nat.toList_repr] at hmem
  have hdigit := Nat.isDigit_of_mem_toDigits (by decide) (by decide) hmem
  exact absurd hdigit (by decide)

/-- A number below ten digits fits into the margin. -/
theorem margin_of_le (hnumber : l.number ≤ 1 + Span.limit) :
    alignRight? ' ' ((toString l.number).length + 2) "|" =
      some (String.ofList (List.replicate ((toString l.number).length + 1) ' ') ++ "|") := by
  have hdigits : (toString l.number).length ≤ 10 := by
    rw [Nat.toString_eq_repr, Nat.length_repr_le_iff (by decide)]
    exact Nat.lt_of_le_of_lt hnumber (by decide)
  exact alignRight?_of_le (Nat.le_trans (Nat.add_le_add_right hdigits 2) (by decide))

/-- **There is a report of a line** if its caret stands in a field, and then it ends with the
excerpt and the caret. -/
theorem report?_of_lt (hnumber : l.number ≤ 1 + Span.limit)
    (hcolumn : l.indentedColumn < fieldLimit) :
    ∃ report margin, l.report? = some report ∧ report.toList = margin ++ '\n' ::
      ((toString l.number).toList ++ " | ".toList ++ l.excerpt ++ '\n' ::
        (List.replicate ((toString l.number).length + 1) ' ' ++ "| ".toList ++
          List.replicate l.indentedColumn '-' ++ ['^'] ++ '\n' :: [])) := by
  have hcaret : alignRight? '-' (l.indentedColumn + 1) "^" =
    some (String.ofList (List.replicate l.indentedColumn '-') ++ "^") := alignRight?_of_le hcolumn
  rw [report?, margin_of_le hnumber, hcaret]
  refine ⟨_, List.replicate ((toString l.number).length + 1) ' ' ++ ['|'], rfl, ?_⟩
  simp only [String.toList_append, String.toList_ofList, List.append_assoc]
  rfl

/-- There is no report of a line if its caret stands in no field. -/
theorem report?_eq_none_iff (hnumber : l.number ≤ 1 + Span.limit) :
    l.report? = none ↔ fieldLimit ≤ l.indentedColumn := by
  constructor
  · intro hnone
    apply Nat.le_of_not_lt
    intro hcolumn
    obtain ⟨report, -, hreport, -⟩ := report?_of_lt hnumber hcolumn
    rw [hreport] at hnone
    cases hnone
  · intro hwide
    have hcaret : alignRight? '-' (l.indentedColumn + 1) "^" = none :=
      alignRight?_eq_none_iff.2 (Nat.lt_succ_of_le hwide)
    rw [report?, margin_of_le hnumber, hcaret]
    rfl

/-- If a line is found, there is a report exactly if there is one of the line. -/
theorem report?_of_find? {d : Diagnostic} (hl : find? source d.position = some l) (file : String) :
    d.report? source file = l.report?.map (d.heading file ++ ·) := by
  rw [Diagnostic.report?, hl]

/-- **A report ends with the line that is found.** -/
theorem printed_report {d : Diagnostic} (hl : find? source d.position = some l)
    (hposition : d.position ≤ Span.limit) (hcolumn : l.indentedColumn < fieldLimit)
    (hexcerpt : '\n' ∉ l.excerpt) (file : String) :
    ∃ report, d.report? source file = some report ∧
      Printed report l.number l.excerpt l.indentedColumn := by
  have hline : '\n' ∉ (toString l.number).toList ++ " | ".toList ++ l.excerpt := by
    simp only [List.mem_append, not_or]
    exact ⟨⟨newline_notMem_toString l.number, by decide⟩, hexcerpt⟩
  have hgutter : '\n' ∉ List.replicate ((toString l.number).length + 1) ' ' ++ "| ".toList ++
      List.replicate l.indentedColumn '-' ++ ['^'] := by
    simp only [List.mem_append, List.mem_replicate, not_or, not_and]
    exact ⟨⟨⟨fun _ => by decide, by decide⟩, fun _ => by decide⟩, by decide⟩
  have hnumber : l.number ≤ 1 + Span.limit :=
    Nat.le_trans (number_le_of_find? hl) (Nat.add_le_add_left hposition 1)
  obtain ⟨report, margin, hreport, htext⟩ := report?_of_lt hnumber hcolumn
  obtain ⟨above, habove, -⟩ := pieces_behind_newline ((d.heading file).toList ++ margin)
    ((toString l.number).toList ++ " | ".toList ++ l.excerpt ++ '\n' ::
      (List.replicate ((toString l.number).length + 1) ' ' ++ "| ".toList ++
        List.replicate l.indentedColumn '-' ++ ['^'] ++ '\n' :: []))
  refine ⟨d.heading file ++ report, ?_, above, ?_⟩
  · rw [report?_of_find? hl, hreport]
    rfl
  · rw [String.toList_append, htext, ← List.append_assoc, habove, pieces_of_newline hline,
      pieces_of_newline hgutter, pieces, List.append_assoc (List.replicate _ _ ++ _ ++ _)]
    rfl

/-- A text is cut behind its last newline. -/
theorem cut_last (cs : List Char) : ∃ before body, cs = before ++ body ∧ '\n' ∉ body ∧
    ∀ c ∈ before.getLast?, c = '\n' := by
  obtain ⟨body, before, hreverse, hbody, hbefore⟩ := cut_first cs.reverse
  refine ⟨before.reverse, body.reverse, ?_, by rwa [List.mem_reverse], ?_⟩
  · rw [← List.reverse_append, ← hreverse, List.reverse_reverse]
  · rwa [List.getLast?_reverse]

/-- Indentation takes one byte for each character. -/
theorem width_indent (cs : List Char) :
    width (cs.takeWhile isIndent) = (cs.takeWhile isIndent).length := by
  refine width_eq_length_iff.2 fun c hc => ?_
  have hindent : isIndent c = true := List.all_eq_true.1 List.all_takeWhile c hc
  simp only [isIndent, Bool.or_eq_true, beq_iff_eq] at hindent
  rcases hindent with rfl | rfl <;> rfl

theorem isBlank_of_isIndent {c : Char} (h : isIndent c = true) : isBlank c = true := by
  simp only [isIndent, Bool.or_eq_true, beq_iff_eq] at h
  rcases h with rfl | rfl <;> decide

/-- **What is not blank stays in the excerpt** of its line, as far behind the indentation as the
line has it. -/
theorem excerpt_around (number : Nat) (head tail : List Char) {blanks : List Char} (hne : part ≠ [])
    (hpart : ∀ c ∈ part, isBlank c = false) (hblanks : ∀ c ∈ blanks, isBlank c = true) :
    excerpt ⟨number, head ++ (part ++ tail) ++ blanks, width head⟩ =
        head.dropWhile isIndent ++ (part ++ trimEnd tail) ∧
      indentedColumn ⟨number, head ++ (part ++ tail) ++ blanks, width head⟩ =
        width (head.dropWhile isIndent) := by
  -- the indentation ends inside the head of the line, or where the part begins
  have hstop : ∀ d ∈ (head.dropWhile isIndent ++ (part ++ tail ++ blanks)).head?,
      isIndent d = false := by
    intro d hd
    obtain ⟨c, cs, rfl⟩ := List.exists_cons_of_ne_nil hne
    cases hdrop : head.dropWhile isIndent with
    | nil =>
      rw [hdrop] at hd
      cases hd
      apply Bool.eq_false_iff.2
      intro hindent
      have hblank := hpart d List.mem_cons_self
      rw [isBlank_of_isIndent hindent] at hblank
      cases hblank
    | cons e es =>
      rw [hdrop] at hd
      cases hd
      exact Lexeme.class_of_head?_dropWhile d (by rw [hdrop]; rfl)
  have hindent : ∀ c ∈ head.takeWhile isIndent, isIndent c = true :=
    List.all_eq_true.1 List.all_takeWhile
  have htext : head ++ (part ++ tail) ++ blanks =
      head.takeWhile isIndent ++ (head.dropWhile isIndent ++ (part ++ tail ++ blanks)) := by
    rw [← List.append_assoc (head.takeWhile isIndent), List.takeWhile_append_dropWhile,
      List.append_assoc head]
  obtain ⟨htake, hdrop⟩ := Lexeme.takeWhile_run hindent hstop
  constructor
  · have hlast : ∀ c ∈ (head.dropWhile isIndent ++ part).getLast?, isBlank c = false := by
      intro c hc
      rw [List.getLast?_append, List.getLast?_eq_some_getLast hne, Option.some_or] at hc
      exact hpart c (Option.some.inj hc ▸ List.getLast_mem hne)
    calc trimEnd ((head ++ (part ++ tail) ++ blanks).dropWhile isIndent)
        = trimEnd (head.dropWhile isIndent ++ part ++ (tail ++ blanks)) := by
          rw [htext, hdrop]
          simp only [List.append_assoc]
      _ = head.dropWhile isIndent ++ part ++ trimEnd tail := by
          rw [trimEnd_append hlast, trimEnd_append_blank hblanks]
      _ = head.dropWhile isIndent ++ (part ++ trimEnd tail) := List.append_assoc ..
  · have hwidth : width head = width (head.takeWhile isIndent) + width (head.dropWhile isIndent) := by
      rw [← width_append, List.takeWhile_append_dropWhile]
    rw [indentedColumn, htext, htake, hwidth, width_indent, Nat.add_sub_cancel_left]

/-- **The line around a part of a text** that is not blank: the part stays in the excerpt, behind as
many bytes as the column behind the indentation says. -/
theorem find?_around (hsource : source.toList = front ++ (part ++ behind)) (hne : part ≠ [])
    (hpart : ∀ c ∈ part, isBlank c = false) :
    ∃ l, find? source (width front) = some l ∧ l.number = 1 + front.count '\n' ∧
      '\n' ∉ l.excerpt ∧ ∃ outer before after rest, front = outer ++ before ∧
        behind = after ++ rest ∧ l.excerpt = before ++ (part ++ after) ∧
        l.indentedColumn = width before := by
  obtain ⟨outer, head, rfl, hhead, houter⟩ := cut_last front
  obtain ⟨tail, rest, rfl, htail, hrest⟩ := cut_first behind
  have hpartline : '\n' ∉ part := fun hmem => absurd (hpart _ hmem) (by decide)
  have hbody : '\n' ∉ head ++ (part ++ tail) := by
    simp only [List.mem_append, not_or]
    exact ⟨hhead, hpartline, htail⟩
  have hcolumn : width head < width (head ++ (part ++ tail)) := by
    have := mt width_eq_zero.1 hne
    rw [width_append, width_append]
    omega
  have hline : source.toList = outer ++ (head ++ (part ++ tail) ++ rest) := by
    rw [hsource]
    simp
  have hblanks : ∀ c ∈ rest.take 1, isBlank c = true := by
    intro c hc
    cases rest with
    | nil => cases hc
    | cons d rest =>
      obtain rfl := hrest d rfl
      rw [List.mem_singleton.1 hc]
      decide
  obtain ⟨hexcerpt, hindented⟩ :=
    excerpt_around (1 + outer.count '\n') head tail hne hpart hblanks
  obtain ⟨blanks, hblank, -⟩ := trimEnd_rest tail
  have hfind := find?_of_cut hline houter hbody hrest hcolumn
  rw [← width_append] at hfind
  refine ⟨_, hfind, ?_, ?_, outer ++ head.takeWhile isIndent, head.dropWhile isIndent, trimEnd tail,
    blanks ++ rest, ?_, ?_, hexcerpt, hindented⟩
  · rw [List.count_append, List.count_eq_zero.2 hhead]
    rfl
  · rw [hexcerpt]
    simp only [List.mem_append, not_or]
    refine ⟨fun hmem => hhead ((List.dropWhile_sublist _).subset hmem), hpartline, fun hmem => ?_⟩
    have hkept : trimEnd tail <+: tail := trimEnd_prefix tail
    exact htail (hkept.subset hmem)
  · rw [List.append_assoc, List.takeWhile_append_dropWhile]
  · rw [← List.append_assoc, ← hblank]

end Line

variable {source : String} {recovery : Recovery} {d : Diagnostic} {t : Token} {l : Line}

/-- A token stands in its text at its place, and none of its characters is blank unless it is one
blank character. -/
theorem token_around (hsize : source.utf8ByteSize ≤ Span.limit) (ht : t ∈ tokenize source)
    (hk : t.kind ≠ .eof) (hblank : t.isBlank = false) :
    ∃ front behind, source.toList = front ++ (t.text.toList ++ behind) ∧
      width front = t.span.start ∧ t.text.toList ≠ [] ∧
      ∀ c ∈ t.text.toList, Text.isBlank c = false := by
  obtain ⟨rest, hsource, -⟩ := beforeZero_rest source.toList
  have hlimit : 0 + width (beforeZero source.toList) ≤ Span.limit := by
    rw [← width_toList, hsource, width_append] at hsize
    omega
  rcases (splits_tokenize source).mem_cases ht with rfl | ⟨front, behind, l, hcs, hl, rfl⟩
  · exact absurd rfl hk
  · have htext : (l.placed (0 + width front)).text.toList = l.chars := String.toList_ofList
    rw [htext]
    refine ⟨front, behind ++ rest, ?_, ?_, ?_, hl.isBlank_eq_false htext hblank⟩
    · rw [hsource, hcs]
      simp
    · rw [hcs, width_append, width_append] at hlimit
      rw [Lexeme.placed, Span.between_of_le (by omega) (by omega), Nat.zero_add]
    · obtain ⟨c, chars, hchars, -, -⟩ := hl.begins
      rw [hchars]
      exact List.cons_ne_nil _ _

/-- The newlines among the first bytes of a text are those of its first characters. -/
theorem Text.count_newline_take (front behind : List Char) :
    ((bytes (front ++ behind)).take (width front)).count newline = front.count '\n' := by
  rw [bytes_append, ← length_bytes front, List.take_left]
  exact count_bytes (b := newline) (by decide) front

/-- The place of a fault has a name. -/
theorem position_le_limit (hd : d ∈ (read source recovery).diagnostics) :
    d.position ≤ Span.limit := by
  rw [position_of_mem_diagnostics hd]
  exact start_le_limit_of_mem_tokenize (token_mem_tokenize hd)

/-- **A report shows its token** in the line where it stands, behind as many bytes as there are
dashes. -/
theorem report_around (hsize : source.utf8ByteSize ≤ Span.limit)
    (hd : d ∈ (read source recovery).diagnostics) (hk : d.cause.token.kind ≠ .eof)
    (hblank : d.cause.token.isBlank = false) (hl : Line.find? source d.position = some l)
    (hcolumn : l.column < fieldLimit) (file : String) :
    ∃ outer before after rest report,
      source.toList = outer ++ (before ++ (d.cause.token.text.toList ++ after) ++ rest) ∧
      width (outer ++ before) = d.cause.token.span.start ∧
      d.report? source file = some report ∧
      Line.Printed report
        (1 + (source.toUTF8.data.toList.take d.cause.token.span.start).count newline)
        (before ++ (d.cause.token.text.toList ++ after)) (width before) := by
  obtain ⟨front, behind, hsource, hfront, hne, hpart⟩ :=
    token_around hsize (token_mem_tokenize hd) hk hblank
  obtain ⟨l', hl', hnumber, hnewline, outer, before, after, rest, rfl, rfl, hexcerpt, hindented⟩ :=
    Line.find?_around hsource hne hpart
  rw [hfront, ← position_of_mem_diagnostics hd, hl] at hl'
  obtain rfl := Option.some.inj hl'
  have hfield : l.indentedColumn < fieldLimit := Nat.lt_of_le_of_lt (Nat.sub_le _ _) hcolumn
  obtain ⟨report, hreport, hprinted⟩ :=
    Line.printed_report hl (position_le_limit hd) hfield hnewline file
  rw [hnumber, hexcerpt, hindented] at hprinted
  refine ⟨outer, before, after, rest, report, ?_, hfront, hreport, ?_⟩
  · rw [hsource]
    simp
  · rw [← bytes_toList, hsource, ← hfront, count_newline_take]
    exact hprinted

/-- **The caret stands under the token** exactly if the excerpt holds nothing in front of the token
but characters of one byte: there are as many dashes as bytes in front of the token. -/
theorem caret_under_iff (hsize : source.utf8ByteSize ≤ Span.limit)
    (hd : d ∈ (read source recovery).diagnostics) (hk : d.cause.token.kind ≠ .eof)
    (hblank : d.cause.token.isBlank = false) (hl : Line.find? source d.position = some l)
    (hcolumn : l.column < fieldLimit) (file : String) :
    ∃ outer before after rest,
      source.toList = outer ++ (before ++ (d.cause.token.text.toList ++ after) ++ rest) ∧
      width (outer ++ before) = d.cause.token.span.start ∧
      ∃ report number dashes, d.report? source file = some report ∧
        Line.Printed report number (before ++ (d.cause.token.text.toList ++ after)) dashes ∧
        dashes = width before ∧ (dashes = before.length ↔ ∀ c ∈ before, c.utf8Size = 1) := by
  obtain ⟨outer, before, after, rest, report, hsource, hplace, hreport, hprinted⟩ :=
    report_around hsize hd hk hblank hl hcolumn file
  exact ⟨outer, before, after, rest, hsource, hplace, report, _, _, hreport, hprinted, rfl,
    width_eq_length_iff⟩

/-- Under a sign of three bytes, behind an indentation and a letter of one byte. -/
theorem caret_under_snowman :
    "\tx ☃ @".utf8ByteSize ≤ Span.limit ∧
      ⟨.noOperand ⟨.illegal, "☃", ⟨3, 6⟩⟩, 3⟩ ∈ (read "\tx ☃ @" .synchronize).diagnostics ∧
      Line.find? "\tx ☃ @" 3 = some ⟨1, "\tx ☃ @".toList, 3⟩ ∧ 3 < fieldLimit ∧
      ∃ before after report number dashes,
        Diagnostic.report? ⟨.noOperand ⟨.illegal, "☃", ⟨3, 6⟩⟩, 3⟩ "\tx ☃ @" "main" = some report ∧
        Line.Printed report number (before ++ (['☃'] ++ after)) dashes ∧
        dashes = width before ∧ (dashes = before.length ↔ ∀ c ∈ before, c.utf8Size = 1) := by
  have hsize : "\tx ☃ @".utf8ByteSize ≤ Span.limit := by decide +kernel
  have hd : ⟨.noOperand ⟨.illegal, "☃", ⟨3, 6⟩⟩, 3⟩ ∈
      (read "\tx ☃ @" .synchronize).diagnostics := by decide +kernel
  have hl : Line.find? "\tx ☃ @" 3 = some ⟨1, "\tx ☃ @".toList, 3⟩ := by decide +kernel
  have hcolumn : 3 < fieldLimit := by decide
  obtain ⟨_, before, after, _, -, -, report, number, dashes, hreport, hprinted, hdashes, hiff⟩ :=
    caret_under_iff hsize hd (by decide) (by decide +kernel) hl hcolumn "main"
  exact ⟨hsize, hd, hl, hcolumn, before, after, report, number, dashes, hreport, hprinted, hdashes,
    hiff⟩

/-- Behind a letter of two bytes the caret is a character too far on: there are three dashes where
two characters stand in front of the token. -/
theorem caret_beyond_token :
    ∃ d ∈ (read "é @" .lenient).diagnostics, d.cause.token = ⟨.illegal, "@", ⟨3, 4⟩⟩ ∧
      Line.find? "é @" d.position = some ⟨1, "é @".toList, 3⟩ ∧
      "é @".toList = "é ".toList ++ d.cause.token.text.toList ∧
      width "é ".toList = d.cause.token.span.start ∧
      ∃ report, d.report? "é @" "main" = some report ∧
        Line.Printed report 1 ("é ".toList ++ d.cause.token.text.toList) 3 ∧
        3 ≠ "é ".toList.length := by
  refine ⟨⟨.noOperand ⟨.illegal, "@", ⟨3, 4⟩⟩, 3⟩, by decide +kernel, rfl, by decide +kernel,
    by decide +kernel, by decide +kernel,
    "Error: NoPrefixHandler (Unrecognised character `@`)\n-> main\n  |\n1 | é @\n  | ---^\n",
    by decide +kernel, ⟨?_, ?_⟩, by decide +kernel⟩
  · exact Line.pieces "Error: NoPrefixHandler (Unrecognised character `@`)\n-> main\n  |\n".toList
  · decide +kernel

end Monkey

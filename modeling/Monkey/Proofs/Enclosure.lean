import Monkey.Proofs.GrammarSound
import Monkey.Proofs.Seams

/-!
# A text between braces

The loop that reads a program and the loop that reads the statements of a block agree. A text
without faults, put between braces, is a single block with the same statements in it, further on by
the opening brace. The tokens of the text are moved and stand between those of the braces
(`tokenize_enclosed`), and moved tokens spell the moved statements (`Derives.displaced`), which the
grammar allows inside a block as well as in a program. Main statement: `read_enclosed`.
-/

namespace Monkey

open Descent

variable {ss : List Stmt} {ts : List Token} {f : Nat → Nat} {a : String} {other : Recovery}

/-- **A derivation is displaced with its tokens.** -/
theorem Derives.displaced (h : Derives (.statements ss) ts) (hf : Monotone f)
    (hzero : f 0 ≤ Span.limit) :
    Derives (.statements (Stmt.mapSpanAll (.displace f) ss))
      (ts.map (Token.mapSpan (.displace f))) := by
  -- the tokens are read where nothing follows, and so are the displaced ones
  obtain ⟨s', ht, hs'⟩ := Takes.exists_of_ahead (s := .start ⟨ts, 0⟩) (List.append_nil ts).symm
  have hkind : s'.kind = .eof := by
    rw [State.kind, ht.current_of_nil hs']
    rfl
  have hrun := h.reads ht (by rw [hkind]; rfl)
  have hfinal : Token.ending (f 0) = (Token.ending 0).mapSpan (.displace f) := by
    unfold Token.ending Token.mapSpan Span.displace
    rw [Span.between_of_le hzero hzero]
    rfl
  have hfrom : (State.start ⟨ts, 0⟩).Displaced f
      (.start ⟨ts.map (Token.mapSpan (.displace f)), f 0⟩) := ⟨rfl, hfinal, rfl, .inl rfl⟩
  obtain ⟨r', hrun', hr'⟩ := hrun.displaced hf hfrom
  have hquiet : r'.log = [] := by
    rw [hr'.log, ht.log]
    rfl
  obtain ⟨us, hu, hd⟩ := hrun'.derives hquiet
  have hus : ts.map (Token.mapSpan (.displace f)) = us ++ r'.stream.ahead := hu.ahead
  rw [hr'.ahead, hs', List.map_nil, List.append_nil] at hus
  rw [hus]
  exact hd

/-- The brace that opens a block at the start of a text. -/
def Token.opening : Token := ⟨.openCurly, "\x7b", ⟨0, 1⟩⟩

/-- The brace that closes a block, at an offset. -/
def Token.closing (start : Nat) : Token := ⟨.closeCurly, "\x7d", ⟨start, start + 1⟩⟩

/-- A mark of one byte that does not begin a longer one stands in front of any text. -/
theorem Splits.mark {k : Kind} {c : Char} {start : Nat} {cs : List Char}
    (hk : k.spelling? = some (String.ofList [c])) (hlong : k ≠ .assign ∧ k ≠ .bang)
    (hwidth : Text.width [c] = 1) (hlimit : start + 1 ≤ Span.limit) (h : Splits (start + 1) cs ts) :
    Splits start (c :: cs) (⟨k, String.ofList [c], ⟨start, start + 1⟩⟩ :: ts) := by
  have hnogap : ∀ d ∈ ([] : List Char), Lexeme.isGap d = true := List.forall_mem_nil _
  have hlegal : Lexeme.Legal ⟨k, [c]⟩ cs := .mark hk fun hassign => by
    rcases hassign with hassign | hbang
    · exact absurd hassign hlong.1
    · exact absurd hbang hlong.2
  have hplaced : Lexeme.placed ⟨k, [c]⟩ start = ⟨k, String.ofList [c], ⟨start, start + 1⟩⟩ := by
    unfold Lexeme.placed
    rw [hwidth, Span.between_of_le (by omega) hlimit]
  have hbehind : Splits (start + Text.width [] + Text.width [c]) cs ts := by
    rw [hwidth]
    exact h
  rw [← hplaced]
  exact .lexeme hnogap hlegal hbehind

/-- **The tokens of a text between braces** are those of the text, further on, between those of the
braces. -/
theorem tokenize_enclosed (hzero : '\x00' ∉ a.toList) (hsize : a.utf8ByteSize + 2 ≤ Span.limit) :
    tokenize ("\x7b" ++ a ++ "\x7d") =
      .opening :: (Scanner.ofString a).drain.ahead.map (Token.mapSpan (.displace (· + 1))) ++
        [.closing (a.utf8ByteSize + 1)] ++ [.ending (a.utf8ByteSize + 2)] := by
  have hnonzero : ∀ c ∈ a.toList, c ≠ '\x00' := by
    rintro c hc rfl
    exact hzero hc
  have hwidth := Text.width_toList a
  have hclosing : Splits (0 + 1 + Text.width a.toList) ['\x7d']
      [.closing (0 + 1 + Text.width a.toList), .ending (0 + 1 + Text.width a.toList + 1)] :=
    .mark rfl (by decide) rfl (by omega) (.ending (List.forall_mem_nil _))
  have hmoved := (splits_whole hnonzero).shift (n := 1) (by omega)
  unfold tokenize TokenStream.toList at hmoved
  rw [List.map_append, List.map_singleton] at hmoved
  have hall : Splits 0 ('\x7b' :: (a.toList ++ ['\x7d'])) (.opening :: _) :=
    .mark rfl (by decide) rfl (by decide) (hmoved.joinApart (apart_cons (by decide)) hclosing)
  have htext : ("\x7b" ++ a ++ "\x7d").toList = '\x7b' :: (a.toList ++ ['\x7d']) := by
    rw [String.toList_append, String.toList_append]
    rfl
  have hread : Text.beforeZero ("\x7b" ++ a ++ "\x7d").toList =
      '\x7b' :: (a.toList ++ ['\x7d']) := by
    rw [htext]
    apply Text.beforeZero_eq_self
    simp only [List.forall_mem_cons, List.forall_mem_append]
    exact ⟨by decide, hnonzero, by decide, List.forall_mem_nil _⟩
  rw [← hread] at hall
  have hplace : 0 + 1 + Text.width a.toList = a.utf8ByteSize + 1 := by omega
  rw [← hall.eq_tokenize, hplace, List.append_cons]
  rfl

/-- **A text is read between braces as it is by itself.** If a text without a character zero has no
fault, then between braces it has none either and is a single block, with the statements of the text
in it, further on by the opening brace. -/
theorem read_enclosed (hzero : '\x00' ∉ a.toList) (hquiet : (read a other).diagnostics = [])
    (hsize : a.utf8ByteSize + 2 ≤ Span.limit) (recovery : Recovery) :
    read ("\x7b" ++ a ++ "\x7d") recovery =
      ⟨⟨[.block ⟨.opening, Stmt.mapSpanAll (.displace (· + 1)) (read a other).program.body,
            ⟨0, a.utf8ByteSize + 2⟩⟩],
          ⟨0, a.utf8ByteSize + 2⟩⟩, []⟩ := by
  have htokens := tokenize_enclosed hzero hsize
  obtain ⟨hahead, hfinal⟩ := List.append_inj' htokens rfl
  have hstop : (Scanner.ofString ("\x7b" ++ a ++ "\x7d")).drain.final.span.stop =
      a.utf8ByteSize + 2 := by
    rw [List.singleton_inj.1 hfinal, Token.ending, Span.between_of_le hsize hsize]
  have hmono : Monotone (· + 1) := fun _ _ h => Nat.add_le_add_right h _
  have hbody := (derives_of_read hquiet).1.displaced hmono (by decide)
  have hblock := Derives.block (o := .opening) (c := .closing (a.utf8ByteSize + 1)) rfl rfl hbody
    rfl
  have hall := Derives.statement (.blockStatement hblock) .statementsEnd
  -- the block reaches up to the closing brace
  have hover : ∀ us : List Token, Span.over Token.opening.span.start
      (us ++ [.closing (a.utf8ByteSize + 1)]) = ⟨0, a.utf8ByteSize + 2⟩ := by
    intro us
    unfold Span.over stopOf
    rw [List.getLast?_concat]
    exact congrArg _ (Nat.max_eq_left (Nat.zero_le _))
  rw [List.append_nil, ← hahead] at hall
  rw [read_of_statements recovery hall, hstop, hahead, hover]

/-- The text ends with a conditional that has one block, and with a closing brace. -/
theorem read_enclosed_conditional :
    '\x00' ∉ "-a; if (b) \x7b c \x7d".toList ∧
      (read "-a; if (b) \x7b c \x7d" .lenient).diagnostics = [] ∧
      "-a; if (b) \x7b c \x7d".utf8ByteSize + 2 ≤ Span.limit ∧
      read ("\x7b" ++ "-a; if (b) \x7b c \x7d" ++ "\x7d") .synchronize =
        ⟨⟨[.block ⟨.opening, Stmt.mapSpanAll (.displace (· + 1))
            (read "-a; if (b) \x7b c \x7d" .lenient).program.body, ⟨0, 18⟩⟩], ⟨0, 18⟩⟩, []⟩ := by
  have hzero : '\x00' ∉ "-a; if (b) \x7b c \x7d".toList := by decide +kernel
  have hquiet : (read "-a; if (b) \x7b c \x7d" .lenient).diagnostics = [] := by decide +kernel
  have hsize : "-a; if (b) \x7b c \x7d".utf8ByteSize + 2 ≤ Span.limit := by decide +kernel
  exact ⟨hzero, hquiet, hsize, read_enclosed hzero hquiet hsize .synchronize⟩

end Monkey

import Folio.Proofs.SourceLayout

/-!
# Statements of one line

A line is cut into a statement by scans that look at its characters one by one,
while an expression is read from its lexemes.  The scans agree with the lexemes
of every text that has some: the brackets they count are those that lexemes
open and close, and no comment starts in it.  An expression on a line of its
own is therefore read as that expression, and after a name and the sign of an
assignment as the value of the name.
-/

namespace Folio.Source

open Text

variable {c : Char} {rest text name : Text}

/-! ## The scan of one lexeme -/

/-- A piece of text that is a lexeme has no comment in it, and its brackets
change the depth as the lexeme does. -/
structure Scans (lexeme : Lexeme) (piece : Text) : Prop where
  code : stripComment piece = piece
  ends : EndsOutside piece
  deepens : ∀ depth last, lexeme.enclose depth = some last → (depth : Int) + balance piece = last

/-- Characters outside quotes and brackets are scanned like a lexeme that keeps
the depth. -/
theorem scans_of_plain {lexeme : Lexeme} {piece : Text} (hplain : ∀ c ∈ piece, Plain c)
    (hkeeps : ∀ depth, lexeme.enclose depth = some depth) : Scans lexeme piece := by
  have hmarks : ∀ c ∈ piece, Unmarked c := fun c hc => (hplain c hc).unmarked
  have hcode := beforeComment_unmarked hmarks []
  have hflat := balanceFrom_unmarked (fun c hc => ⟨hmarks c hc, (hplain c hc).flat⟩) []
  rw [List.append_nil] at hcode hflat
  refine ⟨hcode.trans (List.append_nil _), endsOutside_of_unmarked hmarks, ?_⟩
  intro depth last hlast
  rw [hkeeps] at hlast
  cases hlast
  rw [balance, hflat]
  exact Int.add_zero _

theorem plain_run {p : Char → Bool} (hp : ∀ c, p c = true → isWordChar c = true)
    (hc : isWordChar c = true) (rest : Text) :
    ∀ d ∈ c :: rest.take (rest.takeWhile p).length, Plain d := by
  rw [take_length_takeWhile]
  refine List.forall_mem_cons.mpr ⟨.of_isWordChar hc, ?_⟩
  intro d hd
  exact .of_isWordChar (hp d (List.mem_takeWhile_imp hd))

theorem scans_single {symbol : Symbol} (hspells : Symbol.ofChar? c = some symbol) :
    Scans (.symbol symbol) [c] := by
  have hmark := unmarked_of_ofChar? hspells
  have hcode : stripComment [c] = [c] := beforeComment_cons hmark []
  have hbalance : balance [c] = bracketChange c := by
    rw [balance, balanceFrom_cons hmark]
    exact Int.add_zero _
  refine ⟨hcode, endsOutside_of_unmarked (by simpa using hmark), ?_⟩
  intro depth last hlast
  rw [hbalance]
  unfold Symbol.ofChar? at hspells
  split at hspells <;> cases hspells <;> cases depth <;>
    simp [Lexeme.enclose] at hlast <;> simp [bracketChange, ← hlast]

theorem scans_pair {d : Char} {symbol : Symbol} (hspells : Symbol.ofPair? c d = some symbol) :
    Scans (.symbol symbol) [c, d] := by
  obtain ⟨-, hmark, rfl⟩ := unmarked_of_ofPair? hspells
  have hsign : Unmarked '=' := by simp [Unmarked]
  have hflat : bracketChange c = 0 := by
    unfold Symbol.ofPair? at hspells
    split at hspells <;> simp_all [bracketChange]
  refine ⟨?_, endsOutside_of_unmarked (by simpa using ⟨hmark, hsign⟩), ?_⟩
  · rw [stripComment, beforeComment_cons hmark, beforeComment_cons hsign]
    rfl
  · intro depth last hlast
    rw [enclose_of_ofPair? hspells] at hlast
    cases hlast
    rw [balance, balanceFrom_cons hmark, balanceFrom_cons hsign, hflat]
    exact Int.add_zero _

theorem scans_string {value : Text} {used : Nat} (hquote : c = '\'' ∨ c = '"')
    (hstring : readString c [] 0 rest = .ok (value, used)) :
    Scans (.string value) (c :: rest.take used) := by
  have hne : c ≠ '\\' := by rcases hquote with rfl | rfl <;> decide
  have hcomment : c ≠ '#' := by rcases hquote with rfl | rfl <;> decide
  have hopen : Quoting.outside.step c = .inside c := by rcases hquote with rfl | rfl <;> rfl
  have hflat : bracketChange c = 0 := by rcases hquote with rfl | rfl <;> rfl
  obtain ⟨body, after, rfl, hused, hhidden, hstate, -⟩ := readString_eq_ok hne hstring
  rw [Nat.zero_add] at hused
  subst hused
  rw [List.take_left]
  refine ⟨?_, ?_, ?_⟩
  · have hcode := hhidden.beforeComment []
    rw [List.append_nil, hstate] at hcode
    simp only [stripComment, beforeComment, hopen, hcode]
    simp [hcomment]
  · rw [EndsOutside, List.foldl_cons, hopen, hstate]
  · intro depth last hlast
    cases hlast
    have hbody := hhidden.balanceFrom []
    rw [List.append_nil, hstate] at hbody
    simp only [balance, balanceFrom, hopen, hbody, hflat]
    simp

theorem Cut.scans {lexeme : Lexeme} {more : Nat}
    (hcut : Cut c rest lexeme more) : Scans lexeme (c :: rest.take more) := by
  cases hcut with
  | pair hnext hspells =>
    subst hnext
    exact scans_pair hspells
  | single _ hspells => exact scans_single hspells
  | number hdigit =>
    exact scans_of_plain (plain_run (fun d => isWordChar_of_isDigit)
      (isWordChar_of_isDigit hdigit) rest) fun depth => rfl
  | string hquote hstring => exact scans_string hquote hstring
  | word hstart =>
    exact scans_of_plain (plain_run (fun d => id) (isWordChar_of_start hstart) rest)
      (enclose_wordLexeme _)

/-! ## The scan of a text -/

/-- The scans of a text agree with its lexemes. -/
structure ScansAll (lexemes : List Lexeme) (text : Text) : Prop where
  code : stripComment text = text
  ends : EndsOutside text
  deepens : ∀ depth last, enclosed depth lexemes = some last → (depth : Int) + balance text = last

theorem Scans.cons {lexeme : Lexeme} {lexemes : List Lexeme} {piece rest : Text}
    (hpiece : Scans lexeme piece) (hrest : ScansAll lexemes rest) :
    ScansAll (lexeme :: lexemes) (piece ++ rest) := by
  refine ⟨?_, hpiece.ends.append.mpr hrest.ends, ?_⟩
  · rw [stripComment_append hpiece.code hpiece.ends, hrest.code]
  · intro depth last hlast
    rw [enclosed] at hlast
    obtain ⟨middle, hmiddle, hlast⟩ := Option.bind_eq_some_iff.mp hlast
    rw [balance_append hpiece.ends, ← Int.add_assoc, hpiece.deepens depth middle hmiddle,
      hrest.deepens middle last hlast]

theorem ScansAll.blank {lexemes : List Lexeme} (hspace : isSpace c = true)
    (hrest : ScansAll lexemes rest) : ScansAll lexemes (c :: rest) := by
  have hblank : ∀ d ∈ [c], isSpace d = true := by simpa using hspace
  have hends := endsOutside_of_blank hblank
  have hflat : balance [c] = 0 := balanceFrom_of_blank hblank _
  rw [← List.singleton_append]
  refine ⟨?_, hends.append.mpr hrest.ends, ?_⟩
  · rw [stripComment_blank_append hblank, hrest.code]
  · intro depth last hlast
    rw [balance_append hends, hflat, Int.zero_add]
    exact hrest.deepens depth last hlast

theorem scansAll_of_lexemes {lexemes : List Lexeme}
    (hlexemes : lexemes? text = some lexemes) : ScansAll lexemes text := by
  have hcut := cutInto_of_lexemes hlexemes
  clear hlexemes
  induction hcut with
  | nil =>
    refine ⟨rfl, rfl, ?_⟩
    intro depth last hlast
    cases hlast
    exact Int.add_zero _
  | blank hspace _ ih => exact ih.blank hspace
  | lexeme _ hread _ _ ih =>
    have hscans := (cut_of_readLexeme hread).scans.cons ih
    rwa [List.cons_append, List.take_append_drop] at hscans

theorem Means.balance {text : Text} {lexemes : List Lexeme} {e : Expr} (hmeans : Means lexemes e)
    (hlexemes : lexemes? text = some lexemes) : Source.balance text = 0 := by
  have hdeepens := (scansAll_of_lexemes hlexemes).deepens 0 0 hmeans.enclosed
  simpa using hdeepens

/-! ## Texts of one line -/

theorem splitLines_of_oneLine (hne : text ≠ [])
    (hline : ∀ c ∈ text, isLineEnd c = false) : splitLines text = [text] := by
  have hgo : ∀ (text line : Text), (∀ c ∈ text, isLineEnd c = false) → line ++ text ≠ [] →
      splitLines.go line.reverse [] text = [line ++ text] := by
    intro text
    induction text with
    | nil =>
      intro line _ hne
      rw [List.append_nil] at hne
      simp [splitLines.go, hne]
    | cons c text ih =>
      intro line hline hne
      obtain ⟨hc, hrest⟩ := List.forall_mem_cons.mp hline
      have hreturn : c ≠ '\r' := by
        rintro rfl
        exact absurd hc (by decide)
      have hnext := ih (line ++ [c]) hrest (by simp)
      rw [List.reverse_append, List.append_assoc] at hnext
      rw [splitLines.go]
      · rw [if_neg (by simp [hc])]
        exact hnext
      · intro more h
        exact absurd h hreturn
  exact hgo text [] hline hne

theorem dropWhile_eq_self_of_strip (hstrip : strip text = text) :
    text.dropWhile isSpace = text ∧ text.reverse.dropWhile isSpace = text.reverse := by
  have hsuffix := List.dropWhile_suffix (l := text) isSpace
  have hcut := List.dropWhile_suffix (l := (stripStart isSpace text).reverse) isSpace
  have hlength : (strip text).length ≤ (stripStart isSpace text).length := by
    simpa [strip, stripBy, stripEnd] using hcut.length_le
  rw [hstrip] at hlength
  have hstart : stripStart isSpace text = text := hsuffix.eq_of_length_le hlength
  refine ⟨hstart, ?_⟩
  have hend := congrArg List.reverse hstrip
  rwa [strip, stripBy, hstart, stripEnd, List.reverse_reverse] at hend

theorem exists_first_of_dropWhile (hne : text ≠ []) (hdrop : text.dropWhile isSpace = text) :
    ∃ first rest, text = first :: rest ∧ isSpace first = false := by
  obtain ⟨first, rest, rfl⟩ := List.exists_cons_of_ne_nil hne
  refine ⟨first, rest, rfl, ?_⟩
  by_contra hspace
  rw [List.dropWhile_cons_of_pos (by simpa using hspace)] at hdrop
  have hlength := (List.dropWhile_suffix (l := rest) isSpace).length_le
  rw [hdrop, List.length_cons] at hlength
  omega

/-- What stands on one line without blanks at its ends, and without a comment,
is the content of the line. -/
theorem solid_of_strip (hne : text ≠ []) (hline : ∀ c ∈ text, isLineEnd c = false)
    (hstrip : strip text = text) (hcode : stripComment text = text) : Solid text := by
  obtain ⟨hstart, hend⟩ := dropWhile_eq_self_of_strip hstrip
  refine ⟨hcode, exists_first_of_dropWhile hne hstart, ?_, hline⟩
  obtain ⟨last, front, hlast, hspace⟩ := exists_first_of_dropWhile (by simpa using hne) hend
  refine ⟨front.reverse, last, ?_, hspace⟩
  rw [← List.reverse_cons, ← hlast, List.reverse_reverse]

theorem parseProgram_of_solid {statement : Statement} (hsolid : Solid text)
    (hheader : isHeader text = false)
    (hread : parseSimple ⟨1, text⟩ 0 text [] = .ok (statement, [])) :
    parseProgram text = .ok [statement] := by
  obtain ⟨first, rest, hfirst, -⟩ := hsolid.starts
  have hlines : linesOf text = [⟨1, text⟩] := by
    simp [linesOf, splitLines_of_oneLine (by simp [hfirst]) hsolid.oneLine]
  have htext : (⟨1, text⟩ : Line).text = pad 0 text := rfl
  rw [parseProgram_eq_ok_iff, hlines]
  refine .cons (skipBlank_pad htext hsolid []) (Line.indent_pad htext hsolid) (.simple ?_ ?_)
    (.finish (show skipBlank [] = [] from rfl))
  · rw [Line.content_pad htext hsolid, hheader]
  · rw [Line.content_pad htext hsolid, hread]

theorem collect_of_balance (hbalance : balance text = 0) (line : Line)
    (lines : List Line) : collect line text lines = .ok (text, lines) :=
  collect_eq_ok_iff.mpr (.done hbalance.le)

/-! ## Headers -/

theorem eq_of_isPrefixOf_blank {word : Text} (hword : ' ' ∉ word) (hname : ' ' ∉ name)
    (hstarts : (word ++ [' ']).isPrefixOf (name ++ ' ' :: rest) = true) : name = word := by
  have hcut : ∀ {front : Text} (back : Text), ' ' ∉ front →
      (front ++ ' ' :: back).takeWhile (· != ' ') = front := by
    intro front back hfront
    rw [List.takeWhile_append_of_pos]
    · simp
    · rintro c hc
      simpa using ne_of_mem_of_not_mem hc hfront
  obtain ⟨more, hmore⟩ := List.isPrefixOf_iff_prefix.mp hstarts
  rw [List.append_assoc, List.singleton_append] at hmore
  rw [← hcut rest hname, ← hmore, hcut more hword]

theorem isHeader_of_assigns (hname : isIdentifier name = true)
    (hword : name ∉ ["for".toList, "if".toList, "elif".toList]) :
    isHeader (name ++ " = ".toList ++ text) = false := by
  have hblank := blank_not_mem_of_isIdentifier hname
  have hfree : ∀ word ∈ ["for".toList, "if".toList, "elif".toList], ' ' ∉ word := by decide
  have hother : ∀ word ∈ ["for".toList, "if".toList, "elif".toList],
      (word ++ [' ']).isPrefixOf (name ++ " = ".toList ++ text) = false := by
    intro word hmem
    rw [Bool.eq_false_iff]
    intro hstarts
    rw [List.append_assoc] at hstarts
    have hsame := eq_of_isPrefixOf_blank (hfree word hmem) hblank hstarts
    exact hword (hsame ▸ hmem)
  refine isHeader_eq_false_iff.mpr ⟨hother "for".toList (by simp),
    hother "if".toList (by simp), hother "elif".toList (by simp), ?_⟩
  rw [beq_eq_false_iff_ne]
  intro helse
  have hmem : '=' ∈ "else:".toList := by
    rw [← helse]
    simp
  exact absurd hmem (by decide)

theorem solid_of_assigns (hname : isIdentifier name = true)
    (hsolid : Solid text) : Solid (name ++ " = ".toList ++ text) := by
  have hword := isWordChar_of_isIdentifier hname
  have hblank : Unmarked ' ' ∧ isLineEnd ' ' = false := ⟨by unfold Unmarked; decide, by decide⟩
  have hequals : Unmarked '=' ∧ isLineEnd '=' = false := ⟨by unfold Unmarked; decide, by decide⟩
  have hsign : ∀ c ∈ " = ".toList, Unmarked c ∧ isLineEnd c = false := by simp [hblank, hequals]
  have hfront : ∀ c ∈ name ++ " = ".toList, Unmarked c ∧ isLineEnd c = false := by
    intro c hc
    rcases List.mem_append.mp hc with hc | hc
    · obtain ⟨hmark, -, hend⟩ := scan_wordChar (hword c hc)
      exact ⟨hmark, hend⟩
    · exact hsign c hc
  obtain ⟨first, rest, rfl, -⟩ := exists_cons_of_isIdentifier hname
  obtain ⟨front, last, rfl, hlast⟩ := hsolid.ends
  refine ⟨?_, ⟨first, _, rfl, ?_⟩, ⟨_, last, (List.append_assoc _ _ _).symm, hlast⟩, ?_⟩
  · rw [beforeComment_unmarked fun c hc => (hfront c hc).1, hsolid.uncommented]
  · exact isSpace_eq_false_of_isWordChar (hword first (by simp))
  · intro c hc
    rcases List.mem_append.mp hc with hc | hc
    · exact (hfront c hc).2
    · exact hsolid.oneLine c hc

theorem parseExpr_else_ne_ok (origin : Location) (e : Expr) :
    parseExpr origin "else:".toList ≠ .ok e := by
  intro hread
  have hrefused : (parseExpr ⟨1, 1⟩ "else:".toList).toBool = false := by decide +kernel
  obtain ⟨read, hagain, -⟩ := exists_parseExpr_iff.mpr (exists_parseExpr_iff.mp ⟨e, hread, rfl⟩)
  rw [hagain] at hrefused
  cases hrefused

/-! ## Expressions and assignments -/

/-- A line with an expression is read as the expression, unless it starts with
the word of a header, and a name with the sign of an assignment before it makes
it the value of the name. -/
theorem parseProgram_of_parseExpr {origin : Location} {text : Text} {e : Expr}
    (hline : ∀ c ∈ text, isLineEnd c = false) (hstrip : strip text = text)
    (hread : parseExpr origin text = .ok e) :
    findAssignment text = none ∧ balance text = 0 ∧
      ((∀ word ∈ ["for ".toList, "if ".toList, "elif ".toList],
          word.isPrefixOf text = false) →
        ∃ value, parseProgram text = .ok [.expr value (some ⟨1, 1⟩)] ∧
          value.unplaced = e.unplaced) ∧
      ∀ name, isIdentifier name = true →
        name ∉ ["for".toList, "if".toList, "elif".toList] →
        ∃ value, parseProgram (name ++ " = ".toList ++ text) =
            .ok [.assign (String.ofList name) value (some ⟨1, 1⟩)] ∧
          value.unplaced = e.unplaced := by
  obtain ⟨lexemes, hlexemes, hmeans⟩ :=
    exists_parseExpr_iff.mp ⟨e, hread, rfl⟩
  have hne : text ≠ [] := by
    rintro rfl
    cases hlexemes
    exact hmeans.ne_nil rfl
  have hfind : findAssignment text = none :=
    findAssignment_of_means hlexemes
      (show Means (lexemes ++ []) e by simpa using hmeans)
  have hbalance := hmeans.balance hlexemes
  have hsolid := solid_of_strip hne hline hstrip
    (scansAll_of_lexemes hlexemes).code
  have hagain : ∀ (line : Line) (column : Nat), ∃ value,
      line.parseExpr text column = .ok value ∧ value.unplaced = e.unplaced := by
    intro line column
    obtain ⟨value, hvalue, hsame⟩ :=
      exists_parseExpr_iff.mpr ⟨lexemes, hlexemes, hmeans⟩
    exact ⟨value, Line.parseExpr_eq_ok_iff.mpr hvalue, hsame⟩
  refine ⟨hfind, hbalance, ?_, ?_⟩
  · intro hwords
    have helse : text ≠ "else:".toList := by
      rintro rfl
      exact parseExpr_else_ne_ok origin e hread
    have hheader : isHeader text = false :=
      isHeader_eq_false_iff.mpr ⟨hwords _ (by simp), hwords _ (by simp),
        hwords _ (by simp), beq_eq_false_iff_ne.mpr helse⟩
    obtain ⟨value, hvalue, hsame⟩ := hagain ⟨1, text⟩ 1
    refine ⟨value, parseProgram_of_solid hsolid hheader ?_, hsame⟩
    exact parseSimple_eq_ok_iff.mpr (.inr ⟨text, value, hfind,
      collect_of_balance hbalance _ _, hvalue, rfl⟩)
  · intro name hname hword
    have hblank : isSpace ' ' = true := by decide
    have hassigns : Assigns (name ++ " = ".toList ++ text) name (' ' :: text) :=
      ⟨hname, by simp, [], [' '], by simp, by simp [hblank], by simp⟩
    obtain ⟨i, hsign, htarget, hrest⟩ := hassigns.findAssignment
    have hvalueStrip : strip (' ' :: text) = text := by
      have hsame : strip (' ' :: text) = strip text := by
        simp [strip, stripBy, stripStart, hblank]
      rw [hsame, hstrip]
    obtain ⟨value, hvalue, hsame⟩ := hagain ⟨1, name ++ " = ".toList ++ text⟩
      (columnOf 0 (name ++ " = ".toList ++ text) text)
    refine ⟨value, parseProgram_of_solid (solid_of_assigns hname hsolid)
      (isHeader_of_assigns hname hword) ?_, hsame⟩
    refine parseSimple_eq_ok_iff.mpr (.inl ⟨i, text, value, hsign, ?_⟩)
    rw [htarget, hrest, hvalueStrip]
    exact ⟨hname, hne, collect_of_balance hbalance _ _, hvalue, rfl⟩

/-- A call whose arguments hold a comparison, the sign of a named argument and
marks in quotes. -/
def markedCall : Text :=
  "f(a == 1, k = \"#=(\")".toList

theorem markedCall_read_alone :
    (∀ c ∈ markedCall, isLineEnd c = false) ∧ strip markedCall = markedCall ∧
      findAssignment markedCall = none ∧ balance markedCall = 0 ∧
      ∃ e, parseExpr ⟨1, 1⟩ markedCall = .ok e ∧
        (∃ value, parseProgram markedCall =
            .ok [.expr value (some ⟨1, 1⟩)] ∧
          value.unplaced = e.unplaced) ∧
        ∃ value, parseProgram ("x".toList ++ " = ".toList ++ markedCall) =
            .ok [.assign "x" value (some ⟨1, 1⟩)] ∧
          value.unplaced = e.unplaced := by
  have hline : ∀ c ∈ markedCall, isLineEnd c = false := by
    have hall : markedCall.all (fun c => !isLineEnd c) = true := by decide
    simpa using hall
  have hstrip : strip markedCall = markedCall := by decide
  have hreads : (parseExpr ⟨1, 1⟩ markedCall).toBool = true := by
    decide +kernel
  cases hread : parseExpr ⟨1, 1⟩ markedCall with
  | error flaw =>
      rw [hread] at hreads
      cases hreads
  | ok e =>
      obtain ⟨hfind, hbalance, hexpr, hassign⟩ :=
        parseProgram_of_parseExpr hline hstrip hread
      exact ⟨hline, hstrip, hfind, hbalance, e, rfl, hexpr (by decide),
        hassign "x".toList (by decide) (by decide)⟩

end Folio.Source

import Folio.Proofs.AssignmentSign
import Folio.Proofs.BlockStructure

/-!
# Clauses

Lines are put together to clauses: a header is a clause, and a statement without
a block is one together with the lines that close its brackets.  Blank lines are
in no clause.  A clause keeps the indentation of its first line and what it
says, as a header's content or as lexemes, but not how it is spread over lines.

Programs with the same clauses are the same program up to places, if every line
ends outside quotes.  The readings of two texts are followed side by side: at
each point the clauses that are left are the same.
-/

namespace Folio.Source

variable {text blanks source : Text} {line other : Line} {indent : Nat} {lines rest : List Line}
   {e : Expr}

def contentOf (text : Text) : Text :=
  (Text.stripEnd Text.isSpace (stripComment text)).drop (spaceCount text)

inductive Clause where
  | header (indent : Option Nat) (content : Text)
  | simple (indent : Option Nat) (lexemes : Option (List Lexeme)) (closed : Bool)

/-- A statement without a block, as far as it was seen. -/
structure Pending where
  indent : Option Nat
  lexemes : Option (List Lexeme)
  depth : Int

def Pending.start (text : Text) : Pending where
  indent := (indentation text).toOption
  lexemes := lexemes? (stripComment text)
  depth := balance (stripComment text)

def Pending.add (pending : Pending) (text : Text) : Pending where
  indent := pending.indent
  lexemes := Option.map₂ (· ++ ·) pending.lexemes (lexemes? (stripComment text))
  depth := pending.depth + balance (stripComment text)

def Pending.settle (pending : Pending) : Option Pending × List Clause :=
  if pending.depth ≤ 0 then
    (none, [.simple pending.indent pending.lexemes true])
  else (some pending, [])

def clauseStep : Option Pending → Text → Option Pending × List Clause
  | none, text =>
    if isBlankLine text then (none, [])
    else if isHeader (contentOf text) then
      (none, [.header (indentation text).toOption (contentOf text)])
    else (Pending.start text).settle
  | some pending, text => (pending.add text).settle

def clausesFrom : Option Pending → List Text → List Clause
  | none, [] => []
  | some pending, [] => [.simple pending.indent pending.lexemes false]
  | state, text :: rest => (clauseStep state text).2 ++ clausesFrom (clauseStep state text).1 rest

def clauses (texts : List Text) : List Clause :=
  clausesFrom none texts

def Pending.resume (pending : Pending) (rest : List Text) : List Clause :=
  pending.settle.2 ++ clausesFrom pending.settle.1 rest

theorem Pending.resume_of_closed {pending : Pending} (hclosed : pending.depth ≤ 0)
    (rest : List Text) : pending.resume rest =
      .simple pending.indent pending.lexemes true :: clauses rest := by
  rw [Pending.resume, Pending.settle, if_pos hclosed]
  rfl

theorem Pending.resume_nil {pending : Pending} (hopened : 0 < pending.depth) :
    pending.resume [] = [.simple pending.indent pending.lexemes false] := by
  rw [Pending.resume, Pending.settle, if_neg (by omega)]
  rfl

theorem Pending.resume_cons {pending : Pending} (hopened : 0 < pending.depth) (text : Text)
    (rest : List Text) : pending.resume (text :: rest) = (pending.add text).resume rest := by
  rw [Pending.resume, Pending.settle, if_neg (by omega)]
  rfl

theorem clauses_cons_of_blank (hblank : isBlankLine text = true)
    (rest : List Text) : clauses (text :: rest) = clauses rest := by
  simp [clauses, clausesFrom, clauseStep, hblank]

theorem clauses_cons_of_header (hsolid : isBlankLine text = false)
    (hheader : isHeader (contentOf text) = true) (rest : List Text) : clauses (text :: rest) =
      .header (indentation text).toOption (contentOf text) :: clauses rest := by
  simp [clauses, clausesFrom, clauseStep, hsolid, hheader]

theorem clauses_cons_of_simple (hsolid : isBlankLine text = false)
    (hheader : isHeader (contentOf text) = false) (rest : List Text) :
    clauses (text :: rest) = (Pending.start text).resume rest := by
  simp [clauses, clausesFrom, clauseStep, hsolid, hheader, Pending.resume]

theorem Pending.exists_resume (pending : Pending) (rest : List Text) :
    ∃ lexemes closed others, pending.resume rest =
      .simple pending.indent lexemes closed :: others := by
  induction rest generalizing pending with
  | nil =>
    by_cases hclosed : pending.depth ≤ 0
    · exact ⟨_, _, _, Pending.resume_of_closed hclosed []⟩
    · exact ⟨_, _, _, Pending.resume_nil (by omega)⟩
  | cons text rest ih =>
    by_cases hclosed : pending.depth ≤ 0
    · exact ⟨_, _, _, Pending.resume_of_closed hclosed _⟩
    · rw [Pending.resume_cons (by omega)]
      exact ih (pending.add text)

/-! ## Blanks around a text -/

theorem balanceFrom_append (quoting : Quoting) (text rest : Text) :
    balanceFrom quoting (text ++ rest) = balanceFrom quoting text +
        balanceFrom (text.foldl Quoting.step quoting) rest := by
  induction text generalizing quoting with
  | nil => simp [balanceFrom]
  | cons c text ih =>
    rw [List.cons_append, balanceFrom, ih, balanceFrom, List.foldl_cons]
    omega

theorem balance_append (hends : EndsOutside text) (rest : Text) :
    balance (text ++ rest) = balance text + balance rest := by
  rw [balance, balanceFrom_append, hends]
  rfl

theorem balanceFrom_of_blank (hblanks : ∀ c ∈ blanks, Text.isSpace c = true) (quoting : Quoting) :
    balanceFrom quoting blanks = 0 := by
  induction blanks generalizing quoting with
  | nil => rfl
  | cons c blanks ih =>
    obtain ⟨hc, hblanks⟩ := List.forall_mem_cons.mp hblanks
    rw [balanceFrom, ih hblanks, (Plain.of_isSpace hc).flat]
    simp

theorem endsOutside_of_blank (hblanks : ∀ c ∈ blanks, Text.isSpace c = true) : EndsOutside blanks :=
  endsOutside_of_unmarked fun c hc => unmarked_of_isSpace (hblanks c hc)

/-- A scan is inside one of the two quotes, if it is inside quotes. -/
def Quoting.Proper : Quoting → Prop
  | .outside => True
  | .inside quote => quote = '\'' ∨ quote = '"'
  | .escaped quote => quote = '\'' ∨ quote = '"'

theorem Quoting.Proper.step {quoting : Quoting} (hproper : quoting.Proper)
    (c : Char) : (quoting.step c).Proper := by
  cases quoting with
  | outside =>
    rw [Quoting.step]
    split
    · rename_i hquote
      rw [Bool.or_eq_true, beq_iff_eq, beq_iff_eq] at hquote
      exact hquote
    · trivial
  | inside quote =>
    rw [Quoting.step]
    split
    · exact hproper
    · split
      · trivial
      · exact hproper
  | escaped quote => exact hproper

theorem Quoting.Proper.foldl {quoting : Quoting} (hproper : quoting.Proper)
    (text : Text) : (text.foldl Quoting.step quoting).Proper := by
  induction text generalizing quoting with
  | nil => exact hproper
  | cons c text ih => exact ih (hproper.step c)

theorem ne_outside_of_blank (hblanks : ∀ c ∈ blanks, Text.isSpace c = true) {quoting : Quoting}
    (hproper : quoting.Proper) (hinside : quoting ≠ .outside) :
    blanks.foldl Quoting.step quoting ≠ .outside := by
  induction blanks generalizing quoting with
  | nil => exact hinside
  | cons c blanks ih =>
    obtain ⟨hc, hblanks⟩ := List.forall_mem_cons.mp hblanks
    apply ih hblanks (hproper.step c)
    cases quoting with
    | outside => exact absurd rfl hinside
    | escaped quote => simp [Quoting.step]
    | inside quote =>
      have hne : c ≠ quote := by
        rintro rfl
        rcases hproper with rfl | rfl <;> exact absurd hc (by decide)
      by_cases hescape : c = '\\' <;> simp [Quoting.step, hescape, hne]

theorem scans_around {lead trail : Text} (hlead : ∀ c ∈ lead, Text.isSpace c = true)
    (htrail : ∀ c ∈ trail, Text.isSpace c = true) (hends : EndsOutside (lead ++ (text ++ trail))) :
    EndsOutside text ∧ lexemes? (lead ++ (text ++ trail)) = lexemes? text ∧
      balance (lead ++ (text ++ trail)) = balance text := by
  rw [(endsOutside_of_blank hlead).append] at hends
  have htext : EndsOutside text := by
    by_contra hinside
    have hproper : Quoting.outside.Proper := trivial
    rw [EndsOutside, List.foldl_append] at hends
    exact ne_outside_of_blank htrail (hproper.foldl text) hinside hends
  refine ⟨htext, ?_, ?_⟩
  · rw [lexemes?_blank_append hlead, lexemes?_append_blank htext htrail]
  · rw [balance_append (endsOutside_of_blank hlead), balance_append htext]
    simp [balance, balanceFrom_of_blank hlead, balanceFrom_of_blank htrail]

theorem scans_strip (hends : EndsOutside text) : EndsOutside (Text.strip text) ∧
      lexemes? (Text.strip text) = lexemes? text ∧ balance (Text.strip text) = balance text := by
  obtain ⟨lead, trail, hlead, htrail, hsplit⟩ := exists_strip text
  rw [hsplit] at hends
  obtain ⟨houtside, hlexemes, hbalance⟩ := scans_around hlead htrail hends
  refine ⟨houtside, ?_, ?_⟩
  · conv_rhs => rw [hsplit]
    exact hlexemes.symm
  · conv_rhs => rw [hsplit]
    exact hbalance.symm

/-! ## Contents -/

theorem beforeComment_isPrefix (quoting : Quoting) (text : Text) :
    beforeComment quoting text <+: text := by
  induction text generalizing quoting with
  | nil => exact List.prefix_refl _
  | cons c rest ih =>
    rw [beforeComment]
    split
    · exact List.nil_prefix
    · exact List.cons_prefix_cons.mpr ⟨rfl, ih _⟩

theorem takeWhile_append_of_exists {p : Char → Bool} (hstop : ∃ c ∈ text, p c = false)
    (rest : Text) : (text ++ rest).takeWhile p = text.takeWhile p := by
  induction text with
  | nil => simp at hstop
  | cons c text ih =>
    cases hc : p c with
    | false => simp [hc]
    | true =>
      obtain ⟨d, hd, hstop⟩ := hstop
      rcases List.mem_cons.mp hd with rfl | hd
      · rw [hc] at hstop
        cases hstop
      · simp [hc, ih ⟨d, hd, hstop⟩]

theorem exists_stripEnd (text : Text) : ∃ trail, (∀ c ∈ trail, Text.isSpace c = true) ∧
      text = Text.stripEnd Text.isSpace text ++ trail := by
  refine ⟨(text.reverse.takeWhile Text.isSpace).reverse, ?_, ?_⟩
  · intro c hc
    exact List.mem_takeWhile_imp (List.mem_reverse.mp hc)
  · rw [Text.stripEnd, ← List.reverse_append, List.takeWhile_append_dropWhile, List.reverse_reverse]

/-- A line that is not blank has its content between its indentation and
blanks. -/
theorem exists_content (hsolid : isBlankLine text = false) :
    ∃ trail, (∀ c ∈ trail, Text.isSpace c = true) ∧
      stripComment text = List.replicate (spaceCount text) ' ' ++ (contentOf text ++ trail) ∧
      ∃ c ∈ contentOf text, Text.isSpace c = false := by
  obtain ⟨trail, htrail, hcode⟩ := exists_stripEnd (stripComment text)
  obtain ⟨rest, htext⟩ : stripComment text <+: text := beforeComment_isPrefix .outside text
  have hcontent : contentOf text = (Text.stripEnd Text.isSpace (stripComment text)).drop
        (spaceCount text) := rfl
  generalize Text.stripEnd Text.isSpace (stripComment text) = front at *
  obtain ⟨c, hc, hletter⟩ : ∃ c ∈ front, Text.isSpace c = false := by
    by_contra hall
    push Not at hall
    have hblank : isBlankLine text = true := by
      rw [isBlankLine, Text.isBlank, List.all_eq_true, hcode]
      intro c hc
      rcases List.mem_append.mp hc with hc | hc
      · simpa using hall c hc
      · exact htrail c hc
    rw [hblank] at hsolid
    cases hsolid
  have hne : (c == ' ') = false := by
    rw [beq_eq_false_iff_ne]
    rintro rfl
    exact absurd hletter (by decide)
  have hcount : spaceCount text = (front.takeWhile (· == ' ')).length := by
    rw [spaceCount, ← htext, hcode, List.append_assoc, takeWhile_append_of_exists ⟨c, hc, hne⟩]
  have hspaces : front.take (spaceCount text) = List.replicate (spaceCount text) ' ' := by
    rw [hcount, take_length_takeWhile]
    apply List.eq_replicate_of_mem
    intro d hd
    simpa using List.mem_takeWhile_imp hd
  have hsplit : front = List.replicate (spaceCount text) ' ' ++ contentOf text := by
    rw [hcontent, ← hspaces, List.take_append_drop]
  refine ⟨trail, htrail, ?_, c, ?_, hletter⟩
  · rw [hcode, hsplit, List.append_assoc]
  · rw [hsplit] at hc
    rcases List.mem_append.mp hc with hc | hc
    · rw [List.eq_of_mem_replicate hc] at hne
      cases hne
    · exact hc

theorem isSpace_of_mem_replicate {n : Nat} : ∀ c ∈ List.replicate n ' ', Text.isSpace c = true := by
  intro c hc
  rw [List.eq_of_mem_replicate hc]
  decide

theorem scans_content (hsolid : isBlankLine text = false)
    (hends : EndsOutside (stripComment text)) : EndsOutside (contentOf text) ∧
      lexemes? (stripComment text) = lexemes? (contentOf text) ∧
      balance (stripComment text) = balance (contentOf text) := by
  obtain ⟨trail, htrail, hcode, -⟩ := exists_content hsolid
  rw [hcode] at hends ⊢
  exact scans_around isSpace_of_mem_replicate htrail hends

theorem Line.content_eq (hindent : line.indent = .ok indent) :
    line.content indent = contentOf line.text := by
  rw [Line.indent_eq_spaceCount hindent]
  rfl

/-! ## Statements without a block -/

def Sound (lines : List Line) : Prop :=
  ∀ line ∈ lines, EndsOutside (stripComment line.text)

def clausesOf (lines : List Line) : List Clause :=
  clauses (lines.map Line.text)

section Continuation

variable {pending : Pending} {text : Text} (front : List Lexeme)

/-- A statement and the text that it was read from go on together.  The text
may be what follows the first lexemes. -/
theorem Pending.add_continued (hends : EndsOutside text)
    (hline : EndsOutside (stripComment line.text))
    (hlexemes : pending.lexemes = (lexemes? text).map (front ++ ·)) :
    EndsOutside (text ++ '\n' :: Text.strip (stripComment line.text)) ∧
      (pending.add line.text).lexemes =
        (lexemes? (text ++ '\n' :: Text.strip (stripComment line.text))).map (front ++ ·) ∧
      (pending.add line.text).depth =
        pending.depth + balance (Text.strip (stripComment line.text)) := by
  obtain ⟨hpiece, hstrip, hbalance⟩ := scans_strip hline
  refine ⟨?_, ?_, ?_⟩
  · rw [hends.append]
    exact hpiece
  · rw [lexemes?_append hends (by decide), hstrip, Pending.add, hlexemes]
    cases lexemes? text <;> cases lexemes? (stripComment line.text) <;> simp
  · rw [Pending.add, hbalance]

theorem Continues.resume {whole : Text} {count : Int}
    (hcontinues : Continues whole rest text count lines) (hends : EndsOutside text)
    (hlines : Sound lines) (hdepth : pending.depth = count)
    (hlexemes : pending.lexemes = (lexemes? text).map (front ++ ·)) :
    pending.resume (lines.map Line.text) =
      .simple pending.indent ((lexemes? whole).map (front ++ ·)) true :: clausesOf rest := by
  induction hcontinues generalizing pending with
  | done hclosed =>
    rw [Pending.resume_of_closed (by omega), hlexemes]
    rfl
  | @more text count line lines hopened _ ih =>
    obtain ⟨hline, hlines⟩ := List.forall_mem_cons.mp hlines
    obtain ⟨hnext, hadded, hcount⟩ := Pending.add_continued front hends hline hlexemes
    rw [List.map_cons, Pending.resume_cons (by omega)]
    exact ih hnext hlines (hcount.trans (by rw [hdepth])) hadded

theorem exists_continues {count : Int} {indent : Option Nat} {lexemes : Option (List Lexeme)}
    {others : List Clause} (hends : EndsOutside text) (hlines : Sound lines)
    (hdepth : pending.depth = count) (hlexemes : pending.lexemes = (lexemes? text).map (front ++ ·))
    (hresume : pending.resume (lines.map Line.text) = .simple indent lexemes true :: others) :
    ∃ whole rest, Continues whole rest text count lines ∧
      lexemes = (lexemes? whole).map (front ++ ·) ∧ clausesOf rest = others := by
  induction lines generalizing pending text count with
  | nil =>
    by_cases hclosed : count ≤ 0
    · rw [Pending.resume_of_closed (by omega)] at hresume
      cases hresume
      exact ⟨text, [], .done hclosed, hlexemes, rfl⟩
    · rw [List.map_nil, Pending.resume_nil (by omega)] at hresume
      cases hresume
  | cons line lines ih =>
    by_cases hclosed : count ≤ 0
    · rw [Pending.resume_of_closed (by omega)] at hresume
      cases hresume
      exact ⟨text, line :: lines, .done hclosed, hlexemes, rfl⟩
    · obtain ⟨hline, hlines⟩ := List.forall_mem_cons.mp hlines
      obtain ⟨hnext, hadded, hcount⟩ := Pending.add_continued front hends hline hlexemes
      rw [List.map_cons, Pending.resume_cons (by omega)] at hresume
      obtain ⟨whole, rest, hcontinues, hwhole, hrest⟩ :=
        ih hnext hlines (hcount.trans (by rw [hdepth])) hadded hresume
      exact ⟨whole, rest, .more (by omega) hcontinues, hwhole, hrest⟩

/-- The lexemes of the first line come first, and are all of them if the
statement does not go on. -/
theorem Continues.first {whole : Text} {count : Int} {lexemes : List Lexeme}
    (hcontinues : Continues whole rest text count lines) (hends : EndsOutside text)
    (hlines : Sound lines) (hwhole : lexemes? whole = some lexemes) :
    ∃ first more, lexemes? text = some first ∧ lexemes = first ++ more ∧
      (count ≤ 0 → more = []) := by
  induction hcontinues with
  | done _ => exact ⟨lexemes, [], hwhole, by simp, fun _ => rfl⟩
  | @more text count line lines hopened _ ih =>
    obtain ⟨hline, hlines⟩ := List.forall_mem_cons.mp hlines
    obtain ⟨hpiece, -, -⟩ := scans_strip hline
    have hnext : EndsOutside (text ++ '\n' :: Text.strip (stripComment line.text)) := by
      rw [hends.append]
      exact hpiece
    obtain ⟨first, more, hfirst, rfl, -⟩ := ih hnext hlines
    rw [lexemes?_append hends (by decide), Option.map₂_eq_some_iff] at hfirst
    obtain ⟨before, after, hbefore, -, rfl⟩ := hfirst
    exact ⟨before, after ++ more, hbefore, by simp, fun hclosed => by omega⟩

end Continuation

theorem all_blank_of_lexemes (hlexemes : lexemes? text = some []) :
    ∀ c ∈ text, Text.isSpace c = true := by
  generalize hlast : ([] : List Lexeme) = lexemes at hlexemes
  induction cutInto_of_lexemes hlexemes with
  | nil => simp
  | blank hspace _ ih =>
    rw [lexemes?_blank hspace] at hlexemes
    exact List.forall_mem_cons.mpr ⟨hspace, ih hlast hlexemes⟩
  | lexeme => cases hlast

theorem Means.ne_nil {lexemes : List Lexeme} (hmeans : Means lexemes e) : lexemes ≠ [] := by
  obtain ⟨phrase, rfl, -⟩ := hmeans
  obtain ⟨tail, htail⟩ := phrase.tokens_eq_head_cons
  simp [htail]

theorem balance_of_word {name : Text}
    (hlexemes : lexemes? text = some [wordLexeme name]) : balance text = 0 := by
  obtain ⟨lead, c, rest, more, hlead, rfl, hread, hafter⟩ := exists_first hlexemes
  obtain ⟨rfl, rfl, hword⟩ := (cut_of_readLexeme hread).eq_word
  have hplain : ∀ d ∈ lead ++ c :: rest, Plain d := by
    intro d hd
    rw [← takeWhile_append_drop isWordChar rest, ← List.cons_append] at hd
    rcases List.mem_append.mp hd with hd | hd
    · exact .of_isSpace (hlead d hd)
    · rcases List.mem_append.mp hd with hd | hd
      · exact .of_isWordChar (hword d hd)
      · exact .of_isSpace (all_blank_of_lexemes hafter d hd)
  have hscan := balanceFrom_unmarked (fun d hd => ⟨(hplain d hd).unmarked, (hplain d hd).flat⟩) []
  rwa [List.append_nil] at hscan

/-- A line that is not blank, at an indentation. -/
structure Line.Starts (line : Line) (indent : Nat) : Prop where
  indented : line.indent = .ok indent
  solid : isBlankLine line.text = false
  ends : EndsOutside (stripComment line.text)

section Simple

variable {line : Line} {indent : Nat} {lines : List Line}

theorem Line.Starts.endsOutside (hstarts : line.Starts indent) :
    EndsOutside (line.content indent) := by
  rw [Line.content_eq hstarts.indented]
  exact (scans_content hstarts.solid hstarts.ends).1

theorem Line.Starts.pending (hstarts : line.Starts indent) :
    Pending.start line.text = ⟨some indent, lexemes? (line.content indent),
      balance (line.content indent)⟩ := by
  obtain ⟨-, hlexemes, hbalance⟩ := scans_content hstarts.solid hstarts.ends
  rw [Pending.start, Line.indent_eq_ok_iff.mp hstarts.indented, hlexemes, hbalance,
    Line.content_eq hstarts.indented]
  rfl

/-- A statement that was read is a closed clause, and the lines that are left
are those behind it. -/
theorem resume_of_parseSimple {statement : Statement} (hstarts : line.Starts indent)
    (hlines : Sound lines)
    (hread : parseSimple line indent (line.content indent) lines = .ok (statement, rest)) :
    ∃ lexemes, Says lexemes statement ∧ (Pending.start line.text).resume (lines.map Line.text) =
        .simple (some indent) (some lexemes) true :: clausesOf rest := by
  have hcontent := hstarts.endsOutside
  rw [hstarts.pending]
  generalize line.content indent = content at *
  rcases parseSimple_eq_ok_iff.mp hread with
    ⟨i, text, e, hfound, hname, -, hcollect, hexpr, rfl⟩ | ⟨text, e, -, hcollect, hexpr, rfl⟩
  · have hassigns := assigns_of_findAssignment hfound hname
    obtain ⟨hstrip, hvalue, hbalance⟩ := scans_strip (hassigns.endsOutside.mp hcontent)
    obtain ⟨lexemes, hwhole, hmeans⟩ := exists_parseExpr_iff.mp
      ⟨e, Line.parseExpr_eq_ok_iff.mp hexpr, rfl⟩
    refine ⟨_, .assign hname hmeans, ?_⟩
    rw [(collect_eq_ok_iff.mp hcollect).resume
      [wordLexeme (Text.strip (content.take i)), .symbol .assign] hstrip hlines, hwhole]
    · rfl
    · exact hassigns.balance.trans hbalance.symm
    · rw [hassigns.lexemes, hvalue]
      rfl
  · obtain ⟨lexemes, hwhole, hmeans⟩ := exists_parseExpr_iff.mp
      ⟨e, Line.parseExpr_eq_ok_iff.mp hexpr, rfl⟩
    refine ⟨lexemes, .expr hmeans, ?_⟩
    rw [(collect_eq_ok_iff.mp hcollect).resume [] hcontent hlines rfl (by simp), hwhole]
    rfl

theorem exists_parseSimple {lexemes : List Lexeme} {statement : Statement} {others : List Clause}
    (hstarts : line.Starts indent) (hlines : Sound lines) (hmeaning : Says lexemes statement)
    (hresume : (Pending.start line.text).resume (lines.map Line.text) =
      .simple (some indent) (some lexemes) true :: others) :
    ∃ read rest, parseSimple line indent (line.content indent) lines = .ok (read, rest) ∧
      read.unplaced = statement.unplaced ∧ clausesOf rest = others := by
  have hcontent := hstarts.endsOutside
  have hsolid : ¬∀ c ∈ line.content indent, Text.isSpace c = true := by
    rw [Line.content_eq hstarts.indented]
    obtain ⟨-, -, -, c, hc, hletter⟩ := exists_content hstarts.solid
    intro hblank
    rw [hblank c hc] at hletter
    cases hletter
  rw [hstarts.pending] at hresume
  generalize line.content indent = content at *
  obtain ⟨whole, rest, hcontinues, hwhole, hrest⟩ :=
    exists_continues [] hcontent hlines rfl (by simp) hresume
  simp only [List.nil_append, Option.map_id'] at hwhole
  obtain ⟨first, more, hfirst, hall, hmore⟩ := hcontinues.first hcontent hlines hwhole.symm
  cases hmeaning with
  | @assign name lexemes e loc hname hmeans =>
    -- The name and the sign stand on the first line.
    obtain ⟨tail, rfl⟩ : ∃ tail, first = wordLexeme name :: .symbol .assign :: tail := by
      match first with
      | [] => exact absurd (all_blank_of_lexemes hfirst) hsolid
      | [word] =>
        cases hall
        have hnone := hmore (balance_of_word hfirst).le
        cases hnone
      | word :: sign :: tail =>
        cases hall
        exact ⟨tail, rfl⟩
    obtain ⟨value, hassigns⟩ := assigns_of_lexemes hname hfirst
    obtain ⟨i, hfound, hstripName, hdrop⟩ := hassigns.findAssignment
    obtain ⟨hstrip, hvalue, hbalance⟩ := scans_strip (hassigns.endsOutside.mp hcontent)
    obtain ⟨text, after, htext, hlexemes, hafter⟩ :=
      exists_continues [wordLexeme name, .symbol .assign] hstrip hlines
        (hassigns.balance.trans hbalance.symm) (by rw [hassigns.lexemes, hvalue]; rfl) hresume
    obtain ⟨found, hfoundText, heq⟩ := Option.map_eq_some_iff.mp hlexemes.symm
    cases heq
    have hne : Text.strip value ≠ [] := by
      intro hnil
      rw [hnil] at htext
      obtain ⟨front, back, hfront, rfl, hback⟩ := htext.first rfl hlines hfoundText
      cases hfront
      exact hmeans.ne_nil (hback le_rfl)
    obtain ⟨read, hread, hsame⟩ := exists_parseExpr_iff.mpr ⟨found, hfoundText, hmeans⟩
    refine ⟨_, after, parseSimple_eq_ok_iff.mpr (.inl ⟨i, text, read, hfound,
      by rw [hstripName]; exact hname, by rw [hdrop]; exact hne,
      by rw [hdrop]; exact collect_eq_ok_iff.mpr htext, Line.parseExpr_eq_ok_iff.mpr hread, rfl⟩),
      ?_, hafter⟩
    rw [hstripName]
    simp only [Statement.unplaced, hsame]
  | @expr _ e loc hmeans =>
    have hfound : findAssignment content = none := by
      rw [hall] at hmeans
      exact findAssignment_of_means hfirst hmeans
    obtain ⟨read, hread, hsame⟩ := exists_parseExpr_iff.mpr ⟨_, hwhole.symm, hmeans⟩
    refine ⟨_, rest, parseSimple_eq_ok_iff.mpr (.inr ⟨whole, read, hfound,
      collect_eq_ok_iff.mpr hcontinues, Line.parseExpr_eq_ok_iff.mpr hread, rfl⟩), ?_, hrest⟩
    simp only [Statement.unplaced, hsame]

end Simple

/-! ## Lines with the same clauses -/

/-- Lines that end outside quotes and have the same clauses. -/
structure Alike (lines others : List Line) : Prop where
  left : Sound lines
  right : Sound others
  same : clausesOf lines = clausesOf others

theorem Alike.symm {lines others : List Line} (halike : Alike lines others) : Alike others lines :=
  ⟨halike.right, halike.left, halike.same.symm⟩

theorem clausesOf_skipBlank (lines : List Line) :
    clausesOf (skipBlank lines) = clausesOf lines := by
  induction lines with
  | nil => rfl
  | cons line lines ih =>
    cases hblank : isBlankLine line.text with
    | true =>
      rw [skipBlank_cons_of_blank hblank, ih]
      exact (clauses_cons_of_blank hblank _).symm
    | false => rw [skipBlank_cons_of_solid hblank]

theorem clausesOf_ne_nil (hsolid : isBlankLine line.text = false)
    (lines : List Line) : clausesOf (line :: lines) ≠ [] := by
  rw [clausesOf, List.map_cons]
  cases hheader : isHeader (contentOf line.text) with
  | true =>
    rw [clauses_cons_of_header hsolid hheader]
    exact List.cons_ne_nil _ _
  | false =>
    rw [clauses_cons_of_simple hsolid hheader]
    obtain ⟨lexemes, closed, others, hresume⟩ :=
      (Pending.start line.text).exists_resume (lines.map Line.text)
    rw [hresume]
    exact List.cons_ne_nil _ _

section Alike

variable {lines others rest after : List Line} {line first : Line}

theorem Alike.skipBlank (halike : Alike lines others) :
    Alike (skipBlank lines) (skipBlank others) := by
  refine ⟨?_, ?_, ?_⟩
  · exact fun line hline => halike.left line ((skipBlank_suffix _).subset hline)
  · exact fun line hline => halike.right line ((skipBlank_suffix _).subset hline)
  · rw [clausesOf_skipBlank, clausesOf_skipBlank, halike.same]

theorem Alike.skipBlank_eq_nil (halike : Alike lines others)
    (hnext : Source.skipBlank lines = []) : Source.skipBlank others = [] := by
  have hsame := halike.skipBlank.same
  rw [hnext] at hsame
  cases hothers : Source.skipBlank others with
  | nil => rfl
  | cons first after =>
    rw [hothers] at hsame
    exact absurd hsame.symm (clausesOf_ne_nil (not_blank_of_skipBlank hothers) after)

theorem Line.indent_of_toOption
    (hindent : (indentation line.text).toOption = some indent) : line.indent = .ok indent := by
  rw [Line.indent_eq_ok_iff]
  cases hfound : indentation line.text with
  | error reason =>
    rw [hfound] at hindent
    cases hindent
  | ok found =>
    rw [hfound] at hindent
    cases hindent
    rfl

theorem Alike.cases (halike : Alike (line :: rest) (first :: after))
    (hstarts : line.Starts indent) (hfirst : isBlankLine first.text = false) : first.Starts indent ∧
      ((isHeader (line.content indent) = true ∧
          first.content indent = line.content indent ∧ Alike rest after) ∨
        (isHeader (line.content indent) = false ∧ isHeader (first.content indent) = false ∧
          (Pending.start line.text).resume (rest.map Line.text) =
            (Pending.start first.text).resume (after.map Line.text))) := by
  have hindent : (indentation line.text).toOption = some indent := by
    rw [Line.indent_eq_ok_iff.mp hstarts.indented]
    rfl
  have hends := halike.right first (by simp)
  have hsame := halike.same
  rw [clausesOf, clausesOf, List.map_cons, List.map_cons] at hsame
  rw [Line.content_eq hstarts.indented]
  obtain ⟨lexemes, closed, others, hline⟩ :=
    (Pending.start line.text).exists_resume (rest.map Line.text)
  obtain ⟨lexemes', closed', others', hother⟩ :=
    (Pending.start first.text).exists_resume (after.map Line.text)
  cases hheader : isHeader (contentOf line.text) with
  | true =>
    rw [clauses_cons_of_header hstarts.solid hheader] at hsame
    cases hagain : isHeader (contentOf first.text) with
    | true =>
      rw [clauses_cons_of_header hfirst hagain] at hsame
      injection hsame with hclause hrest
      injection hclause with hindents hcontents
      have hstart : first.indent = .ok indent :=
        Line.indent_of_toOption (hindents.symm.trans hindent)
      refine ⟨⟨hstart, hfirst, hends⟩, .inl ⟨rfl, ?_, ?_⟩⟩
      · rw [Line.content_eq hstart, hcontents]
      · exact ⟨fun line hline => halike.left line (by simp [hline]),
          fun line hline => halike.right line (by simp [hline]), hrest⟩
    | false =>
      rw [clauses_cons_of_simple hfirst hagain, hother] at hsame
      cases hsame
  | false =>
    rw [clauses_cons_of_simple hstarts.solid hheader] at hsame
    cases hagain : isHeader (contentOf first.text) with
    | true =>
      rw [clauses_cons_of_header hfirst hagain, hline] at hsame
      cases hsame
    | false =>
      rw [clauses_cons_of_simple hfirst hagain] at hsame
      have hclauses := hsame
      rw [hline, hother] at hclauses
      injection hclauses with hclause _
      injection hclause with hindents _ _
      have hstart : first.indent = .ok indent :=
        Line.indent_of_toOption (hindents.symm.trans hindent)
      refine ⟨⟨hstart, hfirst, hends⟩, .inr ⟨rfl, ?_, hsame⟩⟩
      rw [Line.content_eq hstart, hagain]

theorem Alike.exists_next (halike : Alike lines others)
    (hnext : Source.skipBlank lines = line :: rest) (hindent : line.indent = .ok indent) :
    ∃ first after, Source.skipBlank others = first :: after ∧
      line.Starts indent ∧ first.Starts indent ∧ Alike (line :: rest) (first :: after) := by
  have hskip := halike.skipBlank
  cases hothers : Source.skipBlank others with
  | nil =>
    have hnil := halike.symm.skipBlank_eq_nil hothers
    rw [hnext] at hnil
    cases hnil
  | cons first after =>
    rw [hnext, hothers] at hskip
    have hstarts : line.Starts indent :=
      ⟨hindent, not_blank_of_skipBlank hnext, hskip.left line (by simp)⟩
    obtain ⟨hfirst, -⟩ := hskip.cases hstarts (not_blank_of_skipBlank hothers)
    exact ⟨first, after, rfl, hstarts, hfirst, hskip⟩

theorem Alike.of_header (halike : Alike (line :: rest) (first :: after))
    (hstarts : line.Starts indent) (hfirst : first.Starts indent)
    (hheader : isHeader (line.content indent) = true) :
    first.content indent = line.content indent ∧ Alike rest after := by
  obtain ⟨-, ⟨-, hcontent, hrest⟩ | ⟨hsimple, -⟩⟩ := halike.cases hstarts hfirst.solid
  · exact ⟨hcontent, hrest⟩
  · rw [hheader] at hsimple
    cases hsimple

theorem alike_nil : Alike [] [] := ⟨by simp [Sound], by simp [Sound], rfl⟩

end Alike

/-! ## Headers -/

theorem Line.exists_parseExpr {column : Nat} (hread : line.parseExpr text column = .ok e) :
    ∃ read, other.parseExpr text column = .ok read ∧ read.unplaced = e.unplaced := by
  rw [Line.parseExpr_eq_ok_iff] at hread
  obtain ⟨read, hread, hsame⟩ := exists_parseExpr_iff.mpr (exists_parseExpr_iff.mp ⟨e, hread, rfl⟩)
  exact ⟨read, Line.parseExpr_eq_ok_iff.mpr hread, hsame⟩

section Headers

variable {line other : Line} {indent : Nat} {e : Expr}

theorem Line.Loops.exists_alike {name : Text} (hloops : line.Loops indent name e)
    (hcontent : other.content indent = line.content indent) :
    ∃ read, other.Loops indent name read ∧ read.unplaced = e.unplaced := by
  obtain ⟨source, hparts, hread⟩ := hloops.parts
  obtain ⟨read, hread, hsame⟩ := Line.exists_parseExpr hread
  rw [← hcontent] at hparts hread
  exact ⟨read, ⟨hcontent ▸ hloops.word, source, hparts, hread⟩, hsame⟩

theorem Line.Chooses.exists_alike (hchooses : line.Chooses indent e)
    (hcontent : other.content indent = line.content indent) :
    ∃ read, other.Chooses indent read ∧ read.unplaced = e.unplaced := by
  obtain ⟨condition, hparts, hread⟩ := hchooses.parts
  obtain ⟨read, hread, hsame⟩ := Line.exists_parseExpr hread
  rw [← hcontent] at hparts hread
  exact ⟨read, ⟨hcontent ▸ hchooses.other, hcontent ▸ hchooses.word, condition, hparts, hread⟩,
    hsame⟩

theorem Line.Branches.exists_alike (hbranches : line.Branches indent e)
    (hcontent : other.content indent = line.content indent) :
    ∃ read, other.Branches indent read ∧ read.unplaced = e.unplaced := by
  obtain ⟨condition, hparts, hread⟩ := hbranches.parts
  obtain ⟨read, hread, hsame⟩ := Line.exists_parseExpr hread
  rw [← hcontent] at hparts hread
  exact ⟨read, ⟨hcontent ▸ hbranches.word, condition, hparts, hread⟩, hsame⟩

theorem Line.Loops.isHeader {name : Text} (hloops : line.Loops indent name e) :
    Source.isHeader (line.content indent) = true := by
  rw [Source.isHeader, hloops.word]
  rfl

theorem Line.Chooses.isHeader (hchooses : line.Chooses indent e) :
    Source.isHeader (line.content indent) = true := by
  rw [Source.isHeader, hchooses.word, Bool.or_true]
  rfl

theorem Line.Branches.isHeader (hbranches : line.Branches indent e) :
    Source.isHeader (line.content indent) = true := by
  have hword : ['e', 'l', 'i', 'f', ' '].isPrefixOf (line.content indent) = true := hbranches.word
  simp only [Source.isHeader, continuesChoice, hword, Bool.true_or, Bool.or_true]

end Headers

/-! ## Readings of lines with the same clauses -/

/-- A reading of lines is a reading of all lines with the same clauses, up to
places, and leaves lines with the same clauses. -/
def Judgement.Mirrored : Judgement → Prop
  | .block indent lines body rest => ∀ others, Alike lines others →
    ∃ read after, Parses (.block indent others read after) ∧
      unplacedBody read = unplacedBody body ∧ Alike rest after
  | .statement line indent lines said rest => ∀ first others,
    line.Starts indent → first.Starts indent →
    Alike (line :: lines) (first :: others) →
    ∃ read after, Parses (.statement first indent others read after) ∧
      read.unplaced = said.unplaced ∧ Alike rest after
  | .child indent lines body rest => ∀ others, Alike lines others →
    ∃ read after, Parses (.child indent others read after) ∧
      unplacedBody read = unplacedBody body ∧ Alike rest after
  | .branches indent before lines listed otherwise rest =>
    ∀ already others, unplacedOtherwise already = unplacedOtherwise before →
    Alike lines others →
    ∃ read final after,
      Parses (.branches indent already others read final after) ∧
      unplacedBranches read = unplacedBranches listed ∧
      unplacedOtherwise final = unplacedOtherwise otherwise ∧ Alike rest after

theorem eq_none_of_unplacedOtherwise {already : Option (List Statement)}
    (hnone : unplacedOtherwise already = unplacedOtherwise none) : already = none := by
  cases already with
  | none => rfl
  | some body => cases hnone

theorem Parses.mirrored {judgement : Judgement} (hparses : Parses judgement) :
    judgement.Mirrored := by
  induction hparses with
  | finish hnext =>
    intro others halike
    exact ⟨[], [], .finish (halike.skipBlank_eq_nil hnext), rfl, alike_nil⟩
  | dedent hnext hindent hless =>
    intro others halike
    obtain ⟨first, after, hothers, -, hfirst, hsame⟩ := halike.exists_next hnext hindent
    exact ⟨[], first :: after, .dedent hothers hfirst.indented hless, rfl, hsame⟩
  | cons hnext hindent _ _ ihFirst ihOthers =>
    intro others halike
    obtain ⟨first, after, hothers, hstarts, hfirst, hsame⟩ := halike.exists_next hnext hindent
    obtain ⟨statement, middle, hstatement, heq, hmiddle⟩ := ihFirst first after hstarts hfirst hsame
    obtain ⟨body, last, hbody, heqs, hlast⟩ := ihOthers middle hmiddle
    refine ⟨statement :: body, last, .cons hothers hfirst.indented hstatement hbody, ?_, hlast⟩
    rw [unplacedBody, unplacedBody, heq, heqs]
  | forEach hheader _ ihChild =>
    intro first others hstarts hfirst halike
    obtain ⟨hcontent, hrest⟩ := halike.of_header hstarts hfirst hheader.isHeader
    obtain ⟨e, hloops, he⟩ := hheader.exists_alike hcontent
    obtain ⟨body, last, hbody, heqs, hlast⟩ := ihChild others hrest
    refine ⟨_, last, .forEach hloops hbody, ?_, hlast⟩
    rw [Statement.unplaced, Statement.unplaced, he, heqs]
  | choose hheader _ _ ihChild ihOthers =>
    intro first others hstarts hfirst halike
    obtain ⟨hcontent, hrest⟩ := halike.of_header hstarts hfirst hheader.isHeader
    obtain ⟨e, hchooses, he⟩ := hheader.exists_alike hcontent
    obtain ⟨body, middle, hbody, heqs, hmiddle⟩ := ihChild others hrest
    obtain ⟨branches, otherwise, last, hbranches, hsame, hfinal, hlast⟩ :=
      ihOthers none middle rfl hmiddle
    refine ⟨_, last, .choose hchooses hbody hbranches, ?_, hlast⟩
    simp only [Statement.unplaced, unplacedBranches, he, heqs, hsame, hfinal]
  | simple hheader hread =>
    intro first others hstarts hfirst halike
    obtain ⟨-, ⟨hother, -⟩ | ⟨-, hsimple, hresume⟩⟩ := halike.cases hstarts hfirst.solid
    · rw [hheader] at hother
      cases hother
    · have hlines := (List.forall_mem_cons.mp halike.left).2
      have hothers := (List.forall_mem_cons.mp halike.right).2
      obtain ⟨lexemes, hmeaning, hclauses⟩ := resume_of_parseSimple hstarts hlines hread
      obtain ⟨read, after, hparse, hsame, hafter⟩ := exists_parseSimple
        hfirst hothers hmeaning (hresume.symm.trans hclauses)
      refine ⟨read, after, .simple hsimple hparse, hsame, ?_, ?_, hafter.symm⟩
      · exact fun line hline =>
          hlines line ((parseSimple_suffix hread).subset hline)
      · exact fun line hline =>
          hothers line ((parseSimple_suffix hparse).subset hline)
  | child hnext hindent hmore _ ihBlock =>
    intro others halike
    obtain ⟨first, after, hothers, -, hfirst, hsame⟩ := halike.exists_next hnext hindent
    obtain ⟨body, last, hbody, heqs, hlast⟩ := ihBlock _ hsame
    exact ⟨body, last, .child hothers hfirst.indented hmore hbody, heqs, hlast⟩
  | noLine hnext =>
    intro already others hbefore halike
    exact ⟨[], already, [], .noLine (halike.skipBlank_eq_nil hnext), rfl, hbefore, alike_nil⟩
  | noBranch hnext hindent hother =>
    intro already others hbefore halike
    obtain ⟨first, after, hothers, hstarts, hfirst, hsame⟩ := halike.exists_next hnext hindent
    refine ⟨[], already, first :: after, .noBranch hothers hfirst.indented ?_, rfl, hbefore, hsame⟩
    rintro rfl
    obtain ⟨-, ⟨-, hcontent, -⟩ | ⟨-, hsimple, -⟩⟩ := hsame.cases hstarts hfirst.solid
    · rw [hcontent]
      exact hother rfl
    · rw [isHeader, Bool.or_eq_false_iff] at hsimple
      exact hsimple.2
  | elif hnext hindent hheader _ _ ihChild ihOthers =>
    intro already others hbefore halike
    obtain rfl := eq_none_of_unplacedOtherwise hbefore
    obtain ⟨first, after, hothers, hstarts, hfirst, hsame⟩ := halike.exists_next hnext hindent
    obtain ⟨hcontent, hrest⟩ := hsame.of_header hstarts hfirst hheader.isHeader
    obtain ⟨e, hbranch, he⟩ := hheader.exists_alike hcontent
    obtain ⟨body, middle, hbody, heqs, hmiddle⟩ := ihChild after hrest
    obtain ⟨branches, otherwise, last, hbranches, heq, hfinal, hlast⟩ :=
      ihOthers none middle rfl hmiddle
    refine ⟨_, otherwise, last, .elif hothers hfirst.indented hbranch hbody hbranches, ?_, hfinal,
      hlast⟩
    rw [unplacedBranches, unplacedBranches, he, heqs, heq]
  | otherwise hnext hindent hheader _ _ ihChild ihOthers =>
    intro already others hbefore halike
    obtain rfl := eq_none_of_unplacedOtherwise hbefore
    obtain ⟨first, after, hothers, hstarts, hfirst, hsame⟩ := halike.exists_next hnext hindent
    obtain ⟨hcontent, hrest⟩ := hsame.of_header hstarts hfirst (by rw [hheader]; rfl)
    obtain ⟨body, middle, hbody, heqs, hmiddle⟩ := ihChild after hrest
    obtain ⟨branches, otherwise, last, hbranches, heq, hfinal, hlast⟩ :=
      ihOthers (some body) middle (congrArg some heqs) hmiddle
    exact ⟨branches, otherwise, last, .otherwise hothers hfirst.indented
      (hcontent.trans hheader) hbody hbranches, heq, hfinal, hlast⟩

/-! ## Programs with the same clauses -/

/-- Every line of a source, scanned up to its comment, ends outside quotes. -/
def LinesEndOutside (source : Text) : Prop :=
  ∀ text ∈ Text.splitLines source, EndsOutside (stripComment text)

theorem LinesEndOutside.sound (hends : LinesEndOutside source) : Sound (linesOf source) := by
  intro line hline
  apply hends line.text
  rw [← map_text_linesOf]
  exact List.mem_map_of_mem hline

theorem exists_parseProgram_of_clauses {other : Text} {program : Program}
    (hsource : LinesEndOutside source) (hother : LinesEndOutside other)
    (hclauses : clauses (Text.splitLines source) = clauses (Text.splitLines other))
    (hread : parseProgram source = .ok program) : ∃ read, parseProgram other = .ok read ∧
      unplacedBody read = unplacedBody program := by
  have halike : Alike (linesOf source) (linesOf other) := by
    refine ⟨hsource.sound, hother.sound, ?_⟩
    rw [clausesOf, clausesOf, map_text_linesOf, map_text_linesOf, hclauses]
  obtain ⟨read, rest, hparses, hsame, -⟩ := (parseProgram_eq_ok_iff.mp hread).mirrored _ halike
  rw [hparses.rest_eq_nil] at hparses
  exact ⟨read, parseProgram_eq_ok_iff.mpr hparses, hsame⟩

theorem parseProgram_of_clauses {other : Text} (hsource : LinesEndOutside source)
    (hother : LinesEndOutside other)
    (hclauses : clauses (Text.splitLines source) = clauses (Text.splitLines other)) :
    (parseProgram other).toOption.map unplacedBody =
      (parseProgram source).toOption.map unplacedBody := by
  cases hread : parseProgram source with
  | ok program =>
    obtain ⟨read, hparse, hsame⟩ := exists_parseProgram_of_clauses hsource hother hclauses hread
    rw [hparse]
    exact congrArg some hsame
  | error refusal =>
    cases hparse : parseProgram other with
    | error _ => rfl
    | ok read =>
      obtain ⟨program, hprogram, -⟩ := exists_parseProgram_of_clauses hother
        hsource hclauses.symm hparse
      rw [hread] at hprogram
      cases hprogram

end Folio.Source

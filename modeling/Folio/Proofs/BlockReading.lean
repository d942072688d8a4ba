import Folio.Proofs.ProgramRoundTrip

/-!
# Reading blocks without fuel

The readers of blocks, statements, child blocks and branches call each other with
a bound on their calls.  Here the readings are described by a relation that has
no such bound: one rule for each way in which a reader can succeed.  With three
calls for every line the readers succeed exactly where the relation holds, so
what is true of all readings can be shown by induction on the rules.
-/

namespace Folio.Source

variable {line : Line} {text whole content source : Text}

variable {indent : Nat} {body : List Statement}

/-! ## Headers -/

/-- Does a content start a loop or a choice, or go on with a choice? -/
def isHeader (content : Text) : Bool :=
  "for ".toList.isPrefixOf content || "if ".toList.isPrefixOf content ||
    continuesChoice content

/-- A line is the header of a loop over what an expression gives. -/
structure Line.Loops (line : Line) (indent : Nat) (name : Text) (e : Expr) : Prop where
  word : "for ".toList.isPrefixOf (line.content indent) = true
  parts : ∃ source, forParts? (line.content indent) = some (name, source) ∧ line.parseExpr source
      (columnOf indent (line.content indent) source) = .ok e

/-- A line is the header of a choice with a condition. -/
structure Line.Chooses (line : Line) (indent : Nat) (e : Expr) : Prop where
  other : "for ".toList.isPrefixOf (line.content indent) = false
  word : "if ".toList.isPrefixOf (line.content indent) = true
  parts : ∃ condition, ifCondition? (line.content indent) = some condition ∧
    line.parseExpr condition (columnOf indent (line.content indent) condition) = .ok e

/-- A line is the header of another branch with a condition. -/
structure Line.Branches (line : Line) (indent : Nat) (e : Expr) : Prop where
  word : "elif ".toList.isPrefixOf (line.content indent) = true
  parts : ∃ condition, elifCondition? (line.content indent) = some condition ∧
    line.parseExpr condition (columnOf indent (line.content indent) condition) = .ok e

/-! ## Parts of a line -/

theorem Line.parseExpr_eq_ok_iff {column : Nat} {e : Expr} :
    line.parseExpr text column = .ok e ↔ Source.parseExpr ⟨line.number, column⟩ text = .ok e := by
  unfold Line.parseExpr
  cases Source.parseExpr ⟨line.number, column⟩ text <;> simp

theorem Line.indent_eq_ok_iff : line.indent = .ok indent ↔ indentation line.text = .ok indent := by
  unfold Line.indent
  split
  · rename_i found hfound
    rw [hfound]
    simp
  · rename_i reason column hfound
    simp [hfound, Line.refuse]

/-! ## Readings -/

/-- A question to one of the readers, with its answer: what was read, and the
lines that are left. -/
inductive Judgement where
  | block (indent : Nat) (lines : List Line) (body : List Statement) (rest : List Line)
  | statement (line : Line) (indent : Nat) (lines : List Line) (read : Statement) (rest : List Line)
  | child (indent : Nat) (lines : List Line) (body : List Statement) (rest : List Line)
  | branches (indent : Nat) (before : Option (List Statement))
      (lines : List Line) (branches : List (Expr × List Statement))
      (otherwise : Option (List Statement)) (rest : List Line)

def Judgement.lines : Judgement → List Line
  | .block _ lines _ _ => lines
  | .statement _ _ lines _ _ => lines
  | .child _ lines _ _ => lines
  | .branches _ _ lines _ _ _ => lines

def Judgement.rest : Judgement → List Line
  | .block _ _ _ rest => rest
  | .statement _ _ _ _ rest => rest
  | .child _ _ _ rest => rest
  | .branches _ _ _ _ _ rest => rest

/-- The answers that the readers give. -/
inductive Parses : Judgement → Prop
  | finish {indent : Nat} {lines : List Line} (next : skipBlank lines = []) :
      Parses (.block indent lines [] [])
  | dedent {indent found : Nat} {lines rest : List Line} {line : Line}
      (next : skipBlank lines = line :: rest) (indented : line.indent = .ok found)
      (less : found < indent) : Parses (.block indent lines [] (line :: rest))
  | cons {indent : Nat} {lines rest middle last : List Line} {line : Line}
      {statement : Statement} {body : List Statement} (next : skipBlank lines = line :: rest)
      (indented : line.indent = .ok indent)
      (first : Parses (.statement line indent rest statement middle))
      (others : Parses (.block indent middle body last)) :
      Parses (.block indent lines (statement :: body) last)
  | forEach {indent : Nat} {lines last : List Line} {line : Line} {name : Text}
      {e : Expr} {body : List Statement} (header : line.Loops indent name e)
      (child : Parses (.child indent lines body last)) : Parses (.statement line indent lines
        (.forEach (String.ofList name) e body (some ⟨line.number, indent + 1⟩)) last)
  | choose {indent : Nat} {lines middle last : List Line} {line : Line}
      {e : Expr} {body : List Statement} {branches : List (Expr × List Statement)}
      {otherwise : Option (List Statement)} (header : line.Chooses indent e)
      (child : Parses (.child indent lines body middle))
      (others : Parses (.branches indent none middle branches otherwise last)) :
      Parses (.statement line indent lines (.choose ((e, body) :: branches) otherwise
          (some ⟨line.number, indent + 1⟩)) last)
  | simple {indent : Nat} {lines last : List Line} {line : Line} {statement : Statement}
      (header : isHeader (line.content indent) = false)
      (read : parseSimple line indent (line.content indent) lines = .ok (statement, last)) :
      Parses (.statement line indent lines statement last)
  | child {indent found : Nat} {lines rest last : List Line} {line : Line}
      {body : List Statement} (next : skipBlank lines = line :: rest)
      (indented : line.indent = .ok found) (more : indent < found)
      (block : Parses (.block found (line :: rest) body last)) :
      Parses (.child indent lines body last)
  | noLine {indent : Nat} {before : Option (List Statement)}
      {lines : List Line} (next : skipBlank lines = []) :
      Parses (.branches indent before lines [] before [])
  | noBranch {indent found : Nat} {before : Option (List Statement)}
      {lines rest : List Line} {line : Line} (next : skipBlank lines = line :: rest)
      (indented : line.indent = .ok found) (other : found = indent →
        continuesChoice (line.content indent) = false) :
      Parses (.branches indent before lines [] before (line :: rest))
  | elif {indent : Nat} {lines rest middle last : List Line} {line : Line}
      {e : Expr} {body : List Statement} {branches : List (Expr × List Statement)}
      {otherwise : Option (List Statement)} (next : skipBlank lines = line :: rest)
      (indented : line.indent = .ok indent) (header : line.Branches indent e)
      (child : Parses (.child indent rest body middle))
      (others : Parses (.branches indent none middle branches otherwise last)) :
      Parses (.branches indent none lines ((e, body) :: branches) otherwise last)
  | otherwise {indent : Nat} {lines rest middle last : List Line} {line : Line}
      {body : List Statement} {branches : List (Expr × List Statement)}
      {otherwise : Option (List Statement)} (next : skipBlank lines = line :: rest)
      (indented : line.indent = .ok indent) (header : line.content indent = elseContent)
      (child : Parses (.child indent rest body middle)) (others : Parses
        (.branches indent (some body) middle branches otherwise last)) :
      Parses (.branches indent none lines branches otherwise last)

/-! ## Blank lines -/

variable {lines rest : List Line}

theorem skipBlank_cons_of_blank (hblank : isBlankLine line.text = true) (lines : List Line) :
    skipBlank (line :: lines) = skipBlank lines := by
  simp [skipBlank, hblank]

theorem skipBlank_cons_of_solid (hsolid : isBlankLine line.text = false) (lines : List Line) :
    skipBlank (line :: lines) = line :: lines := by
  simp [skipBlank, hsolid]

theorem skipBlank_suffix (lines : List Line) : skipBlank lines <:+ lines := List.dropWhile_suffix _

theorem not_blank_of_skipBlank (hnext : skipBlank lines = line :: rest) :
    isBlankLine line.text = false := by
  have hhead := List.head?_dropWhile_not (fun line : Line => isBlankLine line.text) lines
  have hskip : lines.dropWhile (fun line => isBlankLine line.text) = line :: rest := hnext
  rw [hskip] at hhead
  simpa using hhead

theorem skipBlank_idem (lines : List Line) : skipBlank (skipBlank lines) = skipBlank lines := by
  cases hnext : skipBlank lines with
  | nil => rfl
  | cons line rest => exact skipBlank_cons_of_solid (not_blank_of_skipBlank hnext) rest

section SkipBlank

variable {others : List Line}

theorem Parses.block_of_skipBlank (hskip : skipBlank lines = skipBlank others)
    (hblock : Parses (.block indent lines body rest)) :
    Parses (.block indent others body rest) := by
  cases hblock with
  | finish hnext => exact .finish (hskip ▸ hnext)
  | dedent hnext hindent hless => exact .dedent (hskip ▸ hnext) hindent hless
  | cons hnext hindent hfirst hothers => exact .cons (hskip ▸ hnext) hindent hfirst hothers

theorem Parses.branches_of_skipBlank {before otherwise : Option (List Statement)}
    {branches : List (Expr × List Statement)} (hskip : skipBlank lines = skipBlank others)
    (hbranches : Parses (.branches indent before lines branches otherwise rest)) :
    Parses (.branches indent before others branches otherwise rest) := by
  cases hbranches with
  | noLine hnext => exact .noLine (hskip ▸ hnext)
  | noBranch hnext hindent hother => exact .noBranch (hskip ▸ hnext) hindent hother
  | elif hnext hindent hheader hchild hothers =>
    exact .elif (hskip ▸ hnext) hindent hheader hchild hothers
  | otherwise hnext hindent hheader hchild hothers =>
    exact .otherwise (hskip ▸ hnext) hindent hheader hchild hothers

end SkipBlank

/-! ## Lines are used from the front -/

/-- A text goes on in the lines below it until its brackets are closed. -/
inductive Continues (whole : Text) (rest : List Line) : Text → Int → List Line → Prop
  | done {count : Int} (closed : count ≤ 0) : Continues whole rest whole count rest
  | more {text : Text} {count : Int} {line : Line} {lines : List Line} (opened : 0 < count)
      (next : Continues whole rest (text ++ '\n' :: Text.strip (stripComment line.text))
        (count + balance (Text.strip (stripComment line.text))) lines) :
      Continues whole rest text count (line :: lines)

theorem continues_of_continued {start : Line} {count : Int}
    (hcontinued : continued start text count lines = .ok (whole, rest)) :
    Continues whole rest text count lines := by
  induction lines generalizing text count with
  | nil =>
    unfold continued at hcontinued
    split at hcontinued
    · rename_i hclosed
      cases hcontinued
      exact .done hclosed
    · cases hcontinued
  | cons line lines ih =>
    unfold continued at hcontinued
    split at hcontinued
    · rename_i hclosed
      cases hcontinued
      exact .done hclosed
    · rename_i hopened
      exact .more (by omega) (ih hcontinued)

theorem Continues.continued {start : Line} {count : Int}
    (hcontinues : Continues whole rest text count lines) :
    Source.continued start text count lines = .ok (whole, rest) := by
  induction hcontinues with
  | done hclosed =>
    unfold Source.continued
    rw [if_pos hclosed]
  | more hopened _ ih =>
    unfold Source.continued
    rw [if_neg (by omega)]
    exact ih

theorem collect_eq_ok_iff {start : Line} :
    collect start text lines = .ok (whole, rest) ↔ Continues whole rest text (balance text) lines :=
  ⟨continues_of_continued, Continues.continued⟩

theorem Continues.suffix {count : Int}
    (hcontinues : Continues whole rest text count lines) : rest <:+ lines := by
  induction hcontinues with
  | done _ => exact List.suffix_refl rest
  | @more _ _ line lines _ _ ih => exact ih.trans (List.suffix_cons line lines)

theorem parseSimple_eq_ok_iff {statement : Statement} :
    parseSimple line indent content lines = .ok (statement, rest) ↔
      (∃ i text e, findAssignment content = some i ∧
        isIdentifier (Text.strip (content.take i)) = true ∧ Text.strip (content.drop (i + 1)) ≠ [] ∧
        collect line (Text.strip (content.drop (i + 1))) lines = .ok (text, rest) ∧
        line.parseExpr text (columnOf indent content (Text.strip (content.drop (i + 1)))) = .ok e ∧
        statement = .assign (String.ofList (Text.strip (content.take i))) e
          (some ⟨line.number, indent + 1⟩)) ∨ (∃ text e, findAssignment content = none ∧
        collect line content lines = .ok (text, rest) ∧ line.parseExpr text (indent + 1) = .ok e ∧
        statement = .expr e (some ⟨line.number, indent + 1⟩)) := by
  unfold parseSimple
  cases hassign : findAssignment content with
  | none =>
    simp only [bind_eq_ok_iff, pure, Except.pure, Except.ok.injEq, Prod.mk.injEq, Prod.exists]
    constructor
    · rintro ⟨text, after, hcollect, e, hread, hstatement, rfl⟩
      exact .inr ⟨text, e, trivial, hcollect, hread, hstatement.symm⟩
    · rintro (⟨i, text, e, hnone, -⟩ | ⟨text, e, -, hcollect, hread, rfl⟩)
      · cases hnone
      · exact ⟨text, rest, hcollect, e, hread, rfl, rfl⟩
  | some i =>
    by_cases htarget : isIdentifier (Text.strip (content.take i)) = true
    · by_cases hvalue : Text.strip (content.drop (i + 1)) = []
      · simp [htarget, hvalue, Line.refuse]
      · simp only [htarget, Bool.not_true, Bool.false_eq_true, if_false, List.isEmpty_iff, hvalue,
          bind_eq_ok_iff, pure, Except.pure, Except.ok.injEq, Prod.mk.injEq, Prod.exists]
        constructor
        · rintro ⟨text, after, hcollect, e, hread, hstatement, rfl⟩
          exact .inl ⟨i, text, e, rfl, htarget, hvalue, hcollect, hread, hstatement.symm⟩
        · rintro (⟨j, text, e, hj, -, -, hcollect, hread, rfl⟩ | ⟨text, e, hnone, -⟩)
          · cases hj
            exact ⟨text, rest, hcollect, e, hread, rfl, rfl⟩
          · cases hnone
    · simp only [Bool.not_eq_true] at htarget
      simp [htarget, Line.refuse]

theorem parseSimple_suffix {statement : Statement}
    (hsimple : parseSimple line indent content lines = .ok (statement, rest)) : rest <:+ lines := by
  rcases parseSimple_eq_ok_iff.mp hsimple with
    ⟨i, text, e, -, -, -, hcollect, -⟩ | ⟨text, e, -, hcollect, -⟩
  · exact (collect_eq_ok_iff.mp hcollect).suffix
  · exact (collect_eq_ok_iff.mp hcollect).suffix

theorem suffix_of_skipBlank_eq (hnext : skipBlank lines = rest) : rest <:+ lines :=
  hnext ▸ skipBlank_suffix lines

theorem suffix_of_skipBlank {last : List Line} (hnext : skipBlank lines = line :: rest)
    (hlast : last <:+ rest) : last <:+ lines :=
  hlast.trans ((List.suffix_cons line rest).trans (suffix_of_skipBlank_eq hnext))

theorem Parses.suffix {judgement : Judgement} (hparses : Parses judgement) :
    judgement.rest <:+ judgement.lines := by
  induction hparses with
  | finish hnext => exact List.nil_suffix
  | dedent hnext _ _ => exact suffix_of_skipBlank_eq hnext
  | cons hnext _ _ _ hfirst hothers => exact suffix_of_skipBlank hnext (hothers.trans hfirst)
  | forEach _ _ hchild => exact hchild
  | choose _ _ _ hchild hothers => exact hothers.trans hchild
  | simple _ hread => exact parseSimple_suffix hread
  | child hnext _ _ _ hblock => exact hblock.trans (suffix_of_skipBlank_eq hnext)
  | noLine hnext => exact List.nil_suffix
  | noBranch hnext _ _ => exact suffix_of_skipBlank_eq hnext
  | elif hnext _ _ _ _ hchild hothers => exact suffix_of_skipBlank hnext (hothers.trans hchild)
  | otherwise hnext _ _ _ _ hchild hothers => exact suffix_of_skipBlank hnext (hothers.trans hchild)

/-! ## What the readers find -/

/-- With enough fuel the readers only give answers of the relation. -/
structure Finds (fuel : Nat) : Prop where
  block : ∀ {indent : Nat} {lines rest : List Line} {body : List Statement},
    3 * lines.length + 1 ≤ fuel → parseBlock indent fuel lines = .ok (body, rest) →
    Parses (.block indent lines body rest)
  statement : ∀ {line : Line} {indent : Nat} {lines rest : List Line}
    {read : Statement}, 3 * lines.length + 3 ≤ fuel →
    parseStatement fuel line indent lines = .ok (read, rest) →
    Parses (.statement line indent lines read rest)
  child : ∀ {header : Line} {indent : Nat} {lines rest : List Line}
    {body : List Statement}, 3 * lines.length + 2 ≤ fuel →
    parseChild fuel header indent lines = .ok (body, rest) → Parses (.child indent lines body rest)
  branches : ∀ {indent : Nat} {before otherwise : Option (List Statement)}
    {lines rest : List Line} {branches : List (Expr × List Statement)},
    3 * lines.length + 1 ≤ fuel →
    parseBranches indent fuel before lines = .ok (branches, otherwise, rest) →
    Parses (.branches indent before lines branches otherwise rest)

theorem length_skipBlank (hnext : skipBlank lines = line :: rest) :
    rest.length + 1 ≤ lines.length := by
  have hsuffix := (skipBlank_suffix lines).length_le
  rwa [hnext, List.length_cons] at hsuffix

section Finds

variable {fuel : Nat}

theorem Finds.block_succ (hfinds : Finds fuel) (hfuel : 3 * lines.length + 1 ≤ fuel + 1)
    (hblock : parseBlock indent (fuel + 1) lines = .ok (body, rest)) :
    Parses (.block indent lines body rest) := by
  cases lines with
  | nil =>
    cases hblock
    exact .finish rfl
  | cons line lines =>
    rw [List.length_cons] at hfuel
    rw [parseBlock] at hblock
    split at hblock
    · rename_i hblank
      have hrest : Parses (.block indent lines body rest) := hfinds.block (by omega) hblock
      apply hrest.block_of_skipBlank
      exact (skipBlank_cons_of_blank hblank lines).symm
    · rename_i hsolid
      have hnext : skipBlank (line :: lines) = line :: lines :=
        skipBlank_cons_of_solid (by simpa using hsolid) lines
      obtain ⟨found, hindent, hblock⟩ := bind_eq_ok_iff.mp hblock
      split at hblock
      · rename_i hless
        cases hblock
        exact .dedent hnext hindent hless
      · split at hblock
        · cases hblock
        · have hfound : found = indent := by omega
          subst hfound
          obtain ⟨⟨statement, middle⟩, hfirst, hblock⟩ := bind_eq_ok_iff.mp hblock
          obtain ⟨⟨others, last⟩, hothers, hblock⟩ := bind_eq_ok_iff.mp hblock
          cases hblock
          have hstatement := hfinds.statement (by omega) hfirst
          have hlength : middle.length ≤ lines.length := hstatement.suffix.length_le
          exact .cons hnext hindent hstatement (hfinds.block (by omega) hothers)

theorem Finds.statement_succ (hfinds : Finds fuel) {read : Statement}
    (hfuel : 3 * lines.length + 3 ≤ fuel + 1)
    (hstatement : parseStatement (fuel + 1) line indent lines = .ok (read, rest)) :
    Parses (.statement line indent lines read rest) := by
  rw [parseStatement] at hstatement
  simp only at hstatement
  split at hstatement
  · rename_i hfor
    split at hstatement
    · cases hstatement
    · rename_i name source hparts
      obtain ⟨e, hread, hstatement⟩ := bind_eq_ok_iff.mp hstatement
      obtain ⟨⟨body, last⟩, hchild, hstatement⟩ := bind_eq_ok_iff.mp hstatement
      cases hstatement
      exact .forEach ⟨hfor, source, hparts, hread⟩ (hfinds.child (by omega) hchild)
  · rename_i hfor
    rw [Bool.not_eq_true] at hfor
    split at hstatement
    · rename_i hif
      split at hstatement
      · cases hstatement
      · rename_i condition hparts
        obtain ⟨e, hread, hstatement⟩ := bind_eq_ok_iff.mp hstatement
        obtain ⟨⟨body, middle⟩, hchild, hstatement⟩ := bind_eq_ok_iff.mp hstatement
        obtain ⟨⟨branches, otherwise, last⟩, hbranches, hstatement⟩ := bind_eq_ok_iff.mp hstatement
        cases hstatement
        have hbody := hfinds.child (by omega) hchild
        have hlength : middle.length ≤ lines.length := hbody.suffix.length_le
        exact .choose ⟨hfor, hif, condition, hparts, hread⟩ hbody
          (hfinds.branches (by omega) hbranches)
    · rename_i hif
      rw [Bool.not_eq_true] at hif
      split at hstatement
      · cases hstatement
      · rename_i helif
        split at hstatement
        · cases hstatement
        · rename_i helse
          rw [Bool.not_eq_true] at helif helse
          have hheader : isHeader (line.content indent) = false := by
            rw [isHeader, hfor, hif]
            simpa [continuesChoice, elseContent] using (⟨helif, helse⟩ : _ ∧ _)
          exact .simple hheader hstatement

theorem Finds.child_succ (hfinds : Finds fuel) {header : Line}
    (hfuel : 3 * lines.length + 2 ≤ fuel + 1)
    (hchild : parseChild (fuel + 1) header indent lines = .ok (body, rest)) :
    Parses (.child indent lines body rest) := by
  rw [parseChild] at hchild
  split at hchild
  · cases hchild
  · rename_i line after hnext
    obtain ⟨found, hindent, hchild⟩ := bind_eq_ok_iff.mp hchild
    split at hchild
    · cases hchild
    · rename_i hmore
      have hlength := length_skipBlank hnext
      have hblock : Parses (.block found (line :: after) body rest) :=
        hfinds.block (by rw [List.length_cons]; omega) hchild
      exact .child hnext hindent (by omega) hblock

theorem Finds.branches_succ (hfinds : Finds fuel) {before otherwise : Option (List Statement)}
    {branches : List (Expr × List Statement)} (hfuel : 3 * lines.length + 1 ≤ fuel + 1)
    (hbranches : parseBranches indent (fuel + 1) before lines = .ok (branches, otherwise, rest)) :
    Parses (.branches indent before lines branches otherwise rest) := by
  rw [parseBranches] at hbranches
  split at hbranches
  · rename_i hnext
    cases hbranches
    exact .noLine hnext
  · rename_i line after hnext
    have hlength := length_skipBlank hnext
    obtain ⟨found, hindent, hchoice⟩ := bind_eq_ok_iff.mp hbranches
    clear hbranches
    simp only at hchoice
    split at hchoice
    · rename_i hfound
      cases hchoice
      exact .noBranch hnext hindent fun hsame => by simp [hsame] at hfound
    · rename_i hfound
      have hsame : found = indent := by simpa using hfound
      subst hsame
      split at hchoice
      · rename_i helif
        split at hchoice
        · cases hchoice
        · rename_i hnone
          have hbefore : before = none := by simpa using hnone
          subst hbefore
          split at hchoice
          · cases hchoice
          · rename_i condition hparts
            obtain ⟨e, hread, hchoice⟩ := bind_eq_ok_iff.mp hchoice
            obtain ⟨⟨body, middle⟩, hchild, hchoice⟩ := bind_eq_ok_iff.mp hchoice
            obtain ⟨⟨others, final, last⟩, hothers, hchoice⟩ := bind_eq_ok_iff.mp hchoice
            cases hchoice
            have hbody := hfinds.child (by omega) hchild
            have hmiddle : middle.length ≤ after.length := hbody.suffix.length_le
            exact .elif hnext hindent ⟨helif, condition, hparts, hread⟩ hbody
              (hfinds.branches (by omega) hothers)
      · rename_i helif
        split at hchoice
        · rename_i helse
          split at hchoice
          · cases hchoice
          · rename_i hnone
            have hbefore : before = none := by simpa using hnone
            subst hbefore
            obtain ⟨⟨body, middle⟩, hchild, hothers⟩ := bind_eq_ok_iff.mp hchoice
            have hbody := hfinds.child (by omega) hchild
            have hmiddle : middle.length ≤ after.length := hbody.suffix.length_le
            exact .otherwise hnext hindent (by simpa [elseContent] using helse)
              hbody (hfinds.branches (by omega) hothers)
        · rename_i helse
          cases hchoice
          rw [Bool.not_eq_true] at helif helse
          refine .noBranch hnext hindent fun _ => ?_
          simpa [continuesChoice, elseContent] using (⟨helif, helse⟩ : _ ∧ _)

end Finds

theorem finds (fuel : Nat) : Finds fuel := by
  induction fuel with
  | zero => constructor <;> intros <;> omega
  | succ fuel ih => exact ⟨ih.block_succ, ih.statement_succ, ih.child_succ, ih.branches_succ⟩

/-! ## What the readers are bound to find -/

def Judgement.cost : Judgement → Nat
  | .block _ lines _ _ => 3 * lines.length + 1
  | .statement _ _ lines _ _ => 3 * lines.length + 3
  | .child _ lines _ _ => 3 * lines.length + 2
  | .branches _ _ lines _ _ _ => 3 * lines.length + 1

def Judgement.Answered (fuel : Nat) : Judgement → Prop
  | .block indent lines body rest => parseBlock indent fuel lines = .ok (body, rest)
  | .statement line indent lines read rest =>
    parseStatement fuel line indent lines = .ok (read, rest)
  | .child indent lines body rest =>
    ∀ header, parseChild fuel header indent lines = .ok (body, rest)
  | .branches indent before lines read otherwise rest =>
    parseBranches indent fuel before lines = .ok (read, otherwise, rest)

theorem parseBlock_of_skipBlank {lines : List Line}
    {answer : Except SourceError (List Statement × List Line)}
    (hanswer : ∀ fuel, 3 * (skipBlank lines).length + 1 ≤ fuel →
      parseBlock indent fuel (skipBlank lines) = answer) (fuel : Nat)
    (hfuel : 3 * lines.length + 1 ≤ fuel) : parseBlock indent fuel lines = answer := by
  induction lines generalizing fuel with
  | nil => exact hanswer fuel hfuel
  | cons line lines ih =>
    cases hblank : isBlankLine line.text with
    | true =>
      rw [skipBlank_cons_of_blank hblank] at hanswer
      rw [List.length_cons] at hfuel
      obtain ⟨less, rfl⟩ : ∃ less, fuel = less + 1 := ⟨fuel - 1, by omega⟩
      rw [parseBlock, if_pos hblank]
      exact ih hanswer less (by omega)
    | false =>
      rw [skipBlank_cons_of_solid hblank] at hanswer
      exact hanswer fuel hfuel

theorem isHeader_eq_false_iff : isHeader content = false ↔
      "for ".toList.isPrefixOf content = false ∧ "if ".toList.isPrefixOf content = false ∧
        "elif ".toList.isPrefixOf content = false ∧ (content == "else:".toList) = false := by
  simp [isHeader, continuesChoice, elseContent, and_assoc]

theorem Parses.answered {judgement : Judgement} (hparses : Parses judgement) :
    ∀ fuel, judgement.cost ≤ fuel → judgement.Answered fuel := by
  induction hparses with
  | finish hnext =>
    apply parseBlock_of_skipBlank
    rw [hnext]
    intro fuel _
    cases fuel <;> rfl
  | @dedent indent found lines rest line hnext hindent hless =>
    apply parseBlock_of_skipBlank
    rw [hnext]
    intro fuel hfuel
    obtain ⟨less, rfl⟩ : ∃ less, fuel = less + 1 := ⟨fuel - 1, by omega⟩
    have hsolid := not_blank_of_skipBlank hnext
    rw [parseBlock, hsolid]
    simp [hindent, hless, bind, Except.bind, pure, Except.pure]
  | @cons indent lines rest middle last line statement body hnext hindent
      hfirst hothers ihFirst ihOthers =>
      apply parseBlock_of_skipBlank
      rw [hnext]
      intro fuel hfuel
      rw [List.length_cons] at hfuel
      obtain ⟨less, rfl⟩ : ∃ less, fuel = less + 1 := ⟨fuel - 1, by omega⟩
      have hsolid := not_blank_of_skipBlank hnext
      have hlength : middle.length ≤ rest.length := hfirst.suffix.length_le
      have hstatement : parseStatement less line indent rest = .ok (statement, middle) :=
        ihFirst less (by rw [Judgement.cost]; omega)
      have hbody : parseBlock indent less middle = .ok (body, last) :=
        ihOthers less (by rw [Judgement.cost]; omega)
      rw [parseBlock, hsolid]
      simp [hindent, hstatement, hbody, bind, Except.bind, pure, Except.pure]
  | @forEach indent lines last line name e body hheader hchild ihChild =>
    intro fuel hfuel
    rw [Judgement.cost] at hfuel
    obtain ⟨less, rfl⟩ : ∃ less, fuel = less + 1 := ⟨fuel - 1, by omega⟩
    obtain ⟨source, hparts, hread⟩ := hheader.parts
    have hbody : parseChild less line indent lines = .ok (body, last) :=
      ihChild less (by rw [Judgement.cost]; omega) line
    rw [Judgement.Answered, parseStatement]
    simp only [hheader.word, if_true, hparts, hread, hbody, bind, Except.bind, pure, Except.pure]
  | @choose indent lines middle last line e body branches otherwise hheader
      hchild hothers ihChild ihOthers =>
      intro fuel hfuel
      rw [Judgement.cost] at hfuel
      obtain ⟨less, rfl⟩ : ∃ less, fuel = less + 1 := ⟨fuel - 1, by omega⟩
      obtain ⟨condition, hparts, hread⟩ := hheader.parts
      have hlength : middle.length ≤ lines.length := hchild.suffix.length_le
      have hbody : parseChild less line indent lines = .ok (body, middle) :=
        ihChild less (by rw [Judgement.cost]; omega) line
      have hbranches : parseBranches indent less none middle = .ok (branches, otherwise, last) :=
        ihOthers less (by rw [Judgement.cost]; omega)
      rw [Judgement.Answered, parseStatement]
      simp only [hheader.other, hheader.word, Bool.false_eq_true, if_false, if_true, hparts, hread,
        hbody, hbranches, bind, Except.bind, pure, Except.pure]
  | @simple indent lines last line statement hheader hread =>
    intro fuel hfuel
    rw [Judgement.cost] at hfuel
    obtain ⟨less, rfl⟩ : ∃ less, fuel = less + 1 := ⟨fuel - 1, by omega⟩
    obtain ⟨hfor, hif, helif, helse⟩ := isHeader_eq_false_iff.mp hheader
    rw [Judgement.Answered, parseStatement]
    simp only [hfor, hif, helif, helse, Bool.false_eq_true, if_false]
    exact hread
  | @child indent found lines rest last line body hnext hindent hmore hblock ihBlock =>
      intro fuel hfuel header
      rw [Judgement.cost] at hfuel
      obtain ⟨less, rfl⟩ : ∃ less, fuel = less + 1 := ⟨fuel - 1, by omega⟩
      have hlength := length_skipBlank hnext
      have hbody : parseBlock found less (line :: rest) = .ok (body, last) := by
        apply ihBlock less
        rw [Judgement.cost, List.length_cons]
        omega
      rw [parseChild, hnext]
      simp [hindent, hmore, hbody, bind, Except.bind]
  | noLine hnext =>
    intro fuel hfuel
    cases fuel with
    | zero => simp [Judgement.cost] at hfuel
    | succ less => rw [Judgement.Answered, parseBranches, hnext]
  | @noBranch indent found before lines rest line hnext hindent hother =>
    intro fuel hfuel
    rw [Judgement.cost] at hfuel
    obtain ⟨less, rfl⟩ : ∃ less, fuel = less + 1 := ⟨fuel - 1, by omega⟩
    rw [Judgement.Answered, parseBranches, hnext]
    simp only [hindent, bind, Except.bind]
    by_cases hsame : found = indent
    · subst hsame
      have hcontinues := hother rfl
      simp only [continuesChoice, elseContent, Bool.or_eq_false_iff] at hcontinues
      simp only [bne_self_eq_false, Bool.false_eq_true, if_false, String.reduceToList, hcontinues.1,
        hcontinues.2]
      rfl
    · simp [hsame, pure, Except.pure]
  | @elif indent lines rest middle last line e body branches otherwise hnext
      hindent hheader hchild hothers ihChild ihOthers =>
      intro fuel hfuel
      rw [Judgement.cost] at hfuel
      obtain ⟨less, rfl⟩ : ∃ less, fuel = less + 1 := ⟨fuel - 1, by omega⟩
      have hlength := length_skipBlank hnext
      have hmiddle : middle.length ≤ rest.length := hchild.suffix.length_le
      obtain ⟨condition, hparts, hread⟩ := hheader.parts
      have hbody : parseChild less line indent rest = .ok (body, middle) :=
        ihChild less (by rw [Judgement.cost]; omega) line
      have hbranches : parseBranches indent less none middle = .ok (branches, otherwise, last) :=
        ihOthers less (by rw [Judgement.cost]; omega)
      rw [Judgement.Answered, parseBranches, hnext]
      simp only [hindent, hheader.word, hparts, hread, hbody, hbranches, bne_self_eq_false,
        Bool.false_eq_true, if_false, if_true, Option.isSome_none, bind, Except.bind, pure,
        Except.pure]
  | @otherwise indent lines rest middle last line body branches otherwise hnext
      hindent hheader hchild hothers ihChild ihOthers =>
      intro fuel hfuel
      rw [Judgement.cost] at hfuel
      obtain ⟨less, rfl⟩ : ∃ less, fuel = less + 1 := ⟨fuel - 1, by omega⟩
      have hlength := length_skipBlank hnext
      have hmiddle : middle.length ≤ rest.length := hchild.suffix.length_le
      have hbody : parseChild less line indent rest = .ok (body, middle) :=
        ihChild less (by rw [Judgement.cost]; omega) line
      have hbranches : parseBranches indent less (some body) middle =
          .ok (branches, otherwise, last) := ihOthers less (by rw [Judgement.cost]; omega)
      have helif : "elif ".toList.isPrefixOf elseContent = false := by
        simp [elseContent, List.isPrefixOf]
      have helse : (elseContent == "else:".toList) = true := by simp [elseContent]
      rw [Judgement.Answered, parseBranches, hnext]
      simp only [hindent, hheader, helif, helse, hbody, hbranches, bne_self_eq_false,
        Bool.false_eq_true, if_false, if_true, Option.isSome_none, bind, Except.bind]

/-! ## Programs -/

theorem Parses.dedented (hblock : Parses (.block indent lines body (line :: rest))) :
    isBlankLine line.text = false ∧ ∃ found < indent, line.indent = .ok found := by
  generalize hjudgement : Judgement.block indent lines body (line :: rest) = judgement at hblock
  induction hblock generalizing lines body with
  | finish _ => cases hjudgement
  | dedent hnext hindent hless =>
    cases hjudgement
    exact ⟨not_blank_of_skipBlank hnext, _, hless, hindent⟩
  | cons _ _ _ _ _ ihOthers =>
    cases hjudgement
    exact ihOthers rfl
  | _ => cases hjudgement

theorem Parses.rest_eq_nil (hblock : Parses (.block 0 lines body rest)) : rest = [] := by
  cases rest with
  | nil => rfl
  | cons line rest =>
    obtain ⟨-, found, hless, -⟩ := hblock.dedented
    omega

theorem parseBlock_program_iff {program : Program} :
    parseBlock 0 (4 * (linesOf source).length + 4) (linesOf source) = .ok (program, []) ↔
      Parses (.block 0 (linesOf source) program []) := by
  constructor
  · intro hblock
    exact (finds _).block (by omega) hblock
  · intro hparses
    exact hparses.answered _ (by rw [Judgement.cost]; omega)

theorem parseProgram_eq_ok_iff {program : Program} :
    parseProgram source = .ok program ↔ Parses (.block 0 (linesOf source) program []) := by
  constructor
  · intro hprogram
    rw [parseProgram] at hprogram
    simp only [Except.map] at hprogram
    split at hprogram
    · cases hprogram
    · rename_i answer hblock
      cases hprogram
      have hparses := (finds _).block (by omega) hblock
      rwa [hparses.rest_eq_nil] at hparses
  · intro hparses
    rw [parseProgram, parseBlock_program_iff.mpr hparses]
    rfl

theorem exists_parseProgram (hread : (parseProgram source).toBool = true) :
    ∃ program, parseProgram source = .ok program := by
  cases hprogram : parseProgram source with
  | error refusal =>
    rw [hprogram] at hread
    cases hread
  | ok program => exact ⟨program, rfl⟩

end Folio.Source

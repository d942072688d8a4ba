import Folio.Proofs.BlockReading
import Folio.Proofs.LexemeSequence
import Folio.Proofs.TextLines

/-!
# Programs below each other

Two texts that are programs, with an end of line between them, are a program
again: the statements of the first text and then those of the second one, whose
places are as many lines further down as the first text is long.

A reading moves down with its lines.  And a reading stays as it is if lines are
added below the lines it was given, as long as these start without indentation
and not with a further branch: no block and no choice goes on there, and what a
statement uses was complete before.
-/

namespace Folio.Source

variable {text whole : Text} {lines rest : List Line}

/-! ## Places further down -/

def Location.down (n : Nat) (l : Location) : Location :=
  { l with line := l.line + n }

def Line.down (n : Nat) (line : Line) : Line :=
  { line with number := line.number + n }

mutual

/-- The expression with its places some lines further down. -/
def Expr.down (n : Nat) : Expr → Expr
  | .constant value loc => .constant value (loc.map (Location.down n))
  | .name identifier loc => .name identifier (loc.map (Location.down n))
  | .range first last loc => .range (first.down n) (last.down n) (loc.map (Location.down n))
  | .list items loc => .list (downAll n items) (loc.map (Location.down n))
  | .attribute object name loc => .attribute (object.down n) name (loc.map (Location.down n))
  | .call callee args named loc =>
    .call (callee.down n) (downAll n args) (downNamed n named)
      (loc.map (Location.down n))
  | .unary op operand loc => .unary op (operand.down n) (loc.map (Location.down n))
  | .binary op left right loc => .binary op (left.down n) (right.down n) (loc.map (Location.down n))
  | .compare op left right loc =>
    .compare op (left.down n) (right.down n) (loc.map (Location.down n))
  | .misplaced loc => .misplaced (loc.map (Location.down n))

def downAll (n : Nat) : List Expr → List Expr
  | [] => []
  | e :: rest => e.down n :: downAll n rest

def downNamed (n : Nat) : List (String × Expr) → List (String × Expr)
  | [] => []
  | (key, e) :: rest => (key, e.down n) :: downNamed n rest

end

mutual

/-- The statement with its places some lines further down. -/
def Statement.down (n : Nat) : Statement → Statement
  | .assign name value loc => .assign name (value.down n) (loc.map (Location.down n))
  | .expr value loc => .expr (value.down n) (loc.map (Location.down n))
  | .forEach name source body loc =>
    .forEach name (source.down n) (downBody n body)
      (loc.map (Location.down n))
  | .choose branches otherwise loc =>
    .choose (downBranches n branches) (downOtherwise n otherwise)
      (loc.map (Location.down n))
  | .misplaced loc => .misplaced (loc.map (Location.down n))

def downBody (n : Nat) : List Statement → List Statement
  | [] => []
  | statement :: rest => statement.down n :: downBody n rest

def downBranches (n : Nat) :
    List (Expr × List Statement) → List (Expr × List Statement)
  | [] => []
  | (condition, body) :: rest => (condition.down n, downBody n body) :: downBranches n rest

def downOtherwise (n : Nat) :
    Option (List Statement) → Option (List Statement)
  | none => none
  | some body => some (downBody n body)

end

/-! ## Expressions further down -/

section Phrases

variable (n : Nat) (origin : Location)

theorem Operator.apply_down (op : Operator) (left right : Expr) :
    op.apply (left.down n) (right.down n) (origin.down n) =
      (op.apply left right origin).down n := by
  cases op <;> rfl

mutual

theorem Phrase.expr_down {level : Level} (phrase : Phrase level) :
    phrase.expr (origin.down n) = (phrase.expr origin).down n := by
  match phrase with
  | .row _ first rest => rw [Phrase.expr, Phrase.expr, first.expr_down, rest.expr_down]
  | .deny _ _ operand | .negate _ operand =>
    rw [Phrase.expr, Phrase.expr, operand.expr_down]
    rfl
  | .affirm operand | .keepSign operand | .parentheses _ operand _ =>
    rw [Phrase.expr, Phrase.expr, operand.expr_down]
  | .suffixed head suffixes => rw [Phrase.expr, Phrase.expr, head.expr_down, suffixes.expr_down]
  | .number _ _ _ | .string _ _ | .yes _ _ | .no _ _ | .name _ _
  | .emptyList _ _ => rfl
  | .list _ items _ =>
    rw [Phrase.expr, Phrase.expr, items.exprs_down]
    rfl

theorem Links.expr_down {level : Level} (links : Links level) (e : Expr) :
    links.expr (origin.down n) (e.down n) = (links.expr origin e).down n := by
  match links with
  | .done => rfl
  | .more op token _ operand rest =>
    rw [Links.expr, Links.expr, operand.expr_down, ← rest.expr_down, ← Operator.apply_down]
    rfl

theorem Suffixes.expr_down (suffixes : Suffixes) (e : Expr) :
    suffixes.expr (origin.down n) (e.down n) = (suffixes.expr origin e).down n := by
  match suffixes with
  | .done => rfl
  | .member _ _ _ rest | .emptyCall _ _ rest =>
    rw [Suffixes.expr, Suffixes.expr, ← rest.expr_down]
    rfl
  | .call _ arguments _ rest =>
    rw [Suffixes.expr, Suffixes.expr, ← rest.expr_down, arguments.values_down,
      arguments.namedValues_down]
    rfl

theorem ArgumentList.values_down {taken : List Text} (arguments : ArgumentList taken) :
    arguments.values (origin.down n) = downAll n (arguments.values origin) := by
  match arguments with
  | .positional value rest =>
    rw [ArgumentList.values, ArgumentList.values, value.expr_down, rest.values_down]
    rfl
  | .named _ _ _ _ _ rest => rw [ArgumentList.values, ArgumentList.values, rest.values_down]

theorem ArgumentTail.values_down {taken : List Text} (tail : ArgumentTail taken) :
    tail.values (origin.down n) = downAll n (tail.values origin) := by
  match tail with
  | .done | .comma _ => rfl
  | .more _ rest => rw [ArgumentTail.values, ArgumentTail.values, rest.values_down]

theorem ArgumentList.namedValues_down {taken : List Text} (arguments : ArgumentList taken) :
    arguments.namedValues (origin.down n) = downNamed n (arguments.namedValues origin) := by
  match arguments with
  | .positional _ rest =>
    rw [ArgumentList.namedValues, ArgumentList.namedValues, rest.namedValues_down]
  | .named _ _ _ _ value rest =>
    rw [ArgumentList.namedValues, ArgumentList.namedValues, value.expr_down, rest.namedValues_down]
    rfl

theorem ArgumentTail.namedValues_down {taken : List Text} (tail : ArgumentTail taken) :
    tail.namedValues (origin.down n) = downNamed n (tail.namedValues origin) := by
  match tail with
  | .done | .comma _ => rfl
  | .more _ rest => rw [ArgumentTail.namedValues, ArgumentTail.namedValues, rest.namedValues_down]

theorem ItemList.exprs_down (items : ItemList) :
    items.exprs (origin.down n) = downAll n (items.exprs origin) := by
  match items with
  | .item value rest =>
    rw [ItemList.exprs, ItemList.exprs, value.expr_down, rest.exprs_down]
    rfl
  | .range first _ last rest =>
    rw [ItemList.exprs, ItemList.exprs, first.expr_down, last.expr_down, rest.exprs_down]
    rfl

theorem ItemTail.exprs_down (tail : ItemTail) :
    tail.exprs (origin.down n) = downAll n (tail.exprs origin) := by
  match tail with
  | .done | .comma _ => rfl
  | .more _ rest => rw [ItemTail.exprs, ItemTail.exprs, rest.exprs_down]

end

end Phrases

theorem parseExpr_down {origin : Location} {e : Expr} (n : Nat)
    (hread : parseExpr origin text = .ok e) : parseExpr (origin.down n) text = .ok (e.down n) := by
  obtain ⟨tokens, last, htokens, phrase, hphrase, rfl⟩ := parseExpr_eq_ok_iff.mp hread
  exact parseExpr_eq_ok_iff.mpr ⟨tokens, last, htokens, phrase, hphrase, phrase.expr_down n origin⟩

/-! ## Lines further down -/

section Lines

variable {line : Line} {indent : Nat} {e : Expr} (n : Nat)

theorem Line.parseExpr_down {text : Text} {column : Nat}
    (hread : line.parseExpr text column = .ok e) :
    (line.down n).parseExpr text column = .ok (e.down n) := by
  have hplace : (⟨(line.down n).number, column⟩ : Location) =
      Location.down n ⟨line.number, column⟩ := by
    simp [Line.down, Location.down]
  rw [Line.parseExpr_eq_ok_iff] at hread
  rw [Line.parseExpr_eq_ok_iff, hplace]
  exact Source.parseExpr_down n hread

theorem Line.indent_down (hindent : line.indent = .ok indent) :
    (line.down n).indent = .ok indent := by
  rw [Line.indent_eq_ok_iff] at *
  exact hindent

theorem Line.Loops.down {name : Text} (hloops : line.Loops indent name e) :
    (line.down n).Loops indent name (e.down n) := by
  obtain ⟨source, hparts, hread⟩ := hloops.parts
  exact ⟨hloops.word, source, hparts, Line.parseExpr_down n hread⟩

theorem Line.Chooses.down (hchooses : line.Chooses indent e) :
    (line.down n).Chooses indent (e.down n) := by
  obtain ⟨condition, hparts, hread⟩ := hchooses.parts
  exact ⟨hchooses.other, hchooses.word, condition, hparts, Line.parseExpr_down n hread⟩

theorem Line.Branches.down (hbranches : line.Branches indent e) :
    (line.down n).Branches indent (e.down n) := by
  obtain ⟨condition, hparts, hread⟩ := hbranches.parts
  exact ⟨hbranches.word, condition, hparts, Line.parseExpr_down n hread⟩

theorem skipBlank_down (hnext : skipBlank lines = rest) :
    skipBlank (lines.map (Line.down n)) = rest.map (Line.down n) := by
  subst hnext
  exact List.dropWhile_map ..

theorem Continues.down {text whole : Text} {count : Int} {lines rest : List Line}
    (hcontinues : Continues whole rest text count lines) :
    Continues whole (rest.map (Line.down n)) text count (lines.map (Line.down n)) := by
  induction hcontinues with
  | done hclosed => exact .done hclosed
  | more hopened _ ih => exact .more hopened ih

theorem collect_down {start other : Line}
    (hcollect : collect start text lines = .ok (whole, rest)) :
    collect other text (lines.map (Line.down n)) = .ok (whole, rest.map (Line.down n)) :=
  collect_eq_ok_iff.mpr ((collect_eq_ok_iff.mp hcollect).down n)

theorem parseSimple_down {content : Text} {statement : Statement}
    (hsimple : parseSimple line indent content lines = .ok (statement, rest)) :
    parseSimple (line.down n) indent content (lines.map (Line.down n)) =
      .ok (statement.down n, rest.map (Line.down n)) := by
  rw [parseSimple_eq_ok_iff] at *
  rcases hsimple with
    ⟨i, text, e, hassign, htarget, hvalue, hcollect, hread, rfl⟩ |
      ⟨text, e, hassign, hcollect, hread, rfl⟩
  · exact .inl ⟨i, text, e.down n, hassign, htarget, hvalue, collect_down n hcollect,
      Line.parseExpr_down n hread, rfl⟩
  · exact .inr ⟨text, e.down n, hassign, collect_down n hcollect, Line.parseExpr_down n hread, rfl⟩

end Lines

def Judgement.down (n : Nat) : Judgement → Judgement
  | .block indent lines body rest =>
    .block indent (lines.map (Line.down n)) (downBody n body)
      (rest.map (Line.down n))
  | .statement line indent lines read rest =>
    .statement (line.down n) indent (lines.map (Line.down n)) (read.down n)
      (rest.map (Line.down n))
  | .child indent lines body rest =>
    .child indent (lines.map (Line.down n)) (downBody n body)
      (rest.map (Line.down n))
  | .branches indent before lines read otherwise rest =>
    .branches indent (downOtherwise n before) (lines.map (Line.down n))
      (downBranches n read) (downOtherwise n otherwise)
      (rest.map (Line.down n))

theorem Parses.down {judgement : Judgement} (n : Nat)
    (hparses : Parses judgement) : Parses (judgement.down n) := by
  induction hparses with
  | finish hnext => exact .finish (skipBlank_down n hnext)
  | dedent hnext hindent hless =>
    exact .dedent (skipBlank_down n hnext) (Line.indent_down n hindent) hless
  | cons hnext hindent _ _ ihFirst ihOthers =>
    exact .cons (skipBlank_down n hnext) (Line.indent_down n hindent) ihFirst ihOthers
  | forEach hheader _ ihChild => exact .forEach (hheader.down n) ihChild
  | choose hheader _ _ ihChild ihOthers => exact .choose (hheader.down n) ihChild ihOthers
  | simple hheader hread => exact .simple hheader (parseSimple_down n hread)
  | child hnext hindent hmore _ ihBlock =>
    exact .child (skipBlank_down n hnext) (Line.indent_down n hindent) hmore ihBlock
  | noLine hnext => exact .noLine (skipBlank_down n hnext)
  | noBranch hnext hindent hother =>
    exact .noBranch (skipBlank_down n hnext) (Line.indent_down n hindent) hother
  | elif hnext hindent hheader _ _ ihChild ihOthers =>
    exact .elif (skipBlank_down n hnext) (Line.indent_down n hindent)
      (hheader.down n) ihChild ihOthers
  | otherwise hnext hindent hheader _ _ ihChild ihOthers =>
    exact .otherwise (skipBlank_down n hnext) (Line.indent_down n hindent) hheader ihChild ihOthers

/-! ## Lines that follow -/

/-- Lines at which every block and every choice ends: the first of them that is
not blank has no indentation and is no further branch. -/
def Fresh (lines : List Line) : Prop :=
  ∀ line rest, skipBlank lines = line :: rest →
    line.indent = .ok 0 ∧ continuesChoice (line.content 0) = false

theorem skipBlank_append (lines more : List Line) :
    skipBlank (lines ++ more) = skipBlank (skipBlank lines ++ more) := by
  induction lines with
  | nil => rfl
  | cons line lines ih =>
    cases hblank : isBlankLine line.text with
    | true =>
      rw [List.cons_append, skipBlank_cons_of_blank hblank, skipBlank_cons_of_blank hblank, ih]
    | false =>
      rw [List.cons_append, skipBlank_cons_of_solid hblank, skipBlank_cons_of_solid hblank,
        List.cons_append, skipBlank_cons_of_solid hblank]

theorem skipBlank_append_of_cons {line : Line} (hnext : skipBlank lines = line :: rest)
    (more : List Line) : skipBlank (lines ++ more) = line :: (rest ++ more) := by
  rw [skipBlank_append, hnext]
  exact skipBlank_cons_of_solid (not_blank_of_skipBlank hnext) (rest ++ more)

theorem Continues.append {count : Int} (more : List Line)
    (hcontinues : Continues whole rest text count lines) :
    Continues whole (rest ++ more) text count (lines ++ more) := by
  induction hcontinues with
  | done hclosed => exact .done hclosed
  | more hopened _ ih => exact .more hopened ih

theorem collect_append {start : Line} (more : List Line)
    (hcollect : collect start text lines = .ok (whole, rest)) :
    collect start text (lines ++ more) = .ok (whole, rest ++ more) :=
  collect_eq_ok_iff.mpr ((collect_eq_ok_iff.mp hcollect).append more)

theorem parseSimple_append {line : Line} {indent : Nat} {content : Text} {statement : Statement}
    (more : List Line) (hsimple : parseSimple line indent content lines = .ok (statement, rest)) :
    parseSimple line indent content (lines ++ more) = .ok (statement, rest ++ more) := by
  rw [parseSimple_eq_ok_iff] at *
  rcases hsimple with
    ⟨i, text, e, hassign, htarget, hvalue, hcollect, hread, rfl⟩ |
      ⟨text, e, hassign, hcollect, hread, rfl⟩
  · exact .inl ⟨i, text, e, hassign, htarget, hvalue, collect_append more hcollect, hread, rfl⟩
  · exact .inr ⟨text, e, hassign, collect_append more hcollect, hread, rfl⟩

/-- What a reader answers if lines are added: the same, with the added lines
left, up to blank lines.  A block goes on in what it left. -/
def Judgement.Extends (more : List Line) : Judgement → Prop
  | .block indent lines body rest => ∀ others last,
    Parses (.block indent (rest ++ more) others last) →
      Parses (.block indent (lines ++ more) (body ++ others) last)
  | .statement line indent lines read rest => ∃ after,
    skipBlank after = skipBlank (rest ++ more) ∧
      Parses (.statement line indent (lines ++ more) read after)
  | .child indent lines body rest => ∃ after,
    skipBlank after = skipBlank (rest ++ more) ∧
      Parses (.child indent (lines ++ more) body after)
  | .branches indent before lines read otherwise rest => ∃ after,
    skipBlank after = skipBlank (rest ++ more) ∧
      Parses (.branches indent before (lines ++ more) read otherwise after)

section Extension

variable {more : List Line} {indent : Nat}

theorem Parses.block_ends {body : List Statement} (hfresh : Fresh more) (hindent : 0 < indent)
    (hblock : Parses (.block indent lines body rest)) :
    Parses (.block indent (rest ++ more) [] (skipBlank (rest ++ more))) := by
  cases hnext : skipBlank (rest ++ more) with
  | nil => exact .finish hnext
  | cons first tail =>
    cases rest with
    | nil =>
      obtain ⟨hfirst, -⟩ := hfresh first tail hnext
      exact .dedent hnext hfirst hindent
    | cons line rest =>
      obtain ⟨hsolid, found, hless, hfound⟩ := hblock.dedented
      rw [List.cons_append, skipBlank_cons_of_solid hsolid] at hnext
      cases hnext
      exact .dedent (skipBlank_cons_of_solid hsolid _) hfound hless

theorem Parses.noBranch_of_fresh
    {before : Option (List Statement)} (hfresh : Fresh more) (hnext : skipBlank lines = []) :
    Parses (.branches indent before (lines ++ more) [] before (skipBlank more)) := by
  have hskip : skipBlank (lines ++ more) = skipBlank more := by
    rw [skipBlank_append, hnext, List.nil_append]
  cases hmore : skipBlank more with
  | nil => exact .noLine (hskip.trans hmore)
  | cons line rest =>
    obtain ⟨hindent, hother⟩ := hfresh line rest hmore
    apply Parses.noBranch (hskip.trans hmore) hindent
    rintro rfl
    exact hother

theorem Parses.extends {judgement : Judgement} (hfresh : Fresh more)
    (hparses : Parses judgement) : judgement.Extends more := by
  induction hparses with
  | finish hnext =>
    intro others last hothers
    apply hothers.block_of_skipBlank
    rw [skipBlank_append, ← hnext, skipBlank_idem, ← skipBlank_append]
  | dedent hnext _ _ =>
    intro others last hothers
    apply hothers.block_of_skipBlank
    rw [skipBlank_append, ← hnext, skipBlank_idem, ← skipBlank_append]
  | cons hnext hindent _ _ ihFirst ihOthers =>
    intro others last hothers
    obtain ⟨after, hafter, hfirst⟩ := ihFirst
    have hrest := (ihOthers others last hothers).block_of_skipBlank hafter.symm
    exact .cons (skipBlank_append_of_cons hnext more) hindent hfirst hrest
  | forEach hheader _ ihChild =>
    obtain ⟨after, hafter, hchild⟩ := ihChild
    exact ⟨after, hafter, .forEach hheader hchild⟩
  | choose hheader _ _ ihChild ihOthers =>
    obtain ⟨middle, hmiddle, hchild⟩ := ihChild
    obtain ⟨after, hafter, hothers⟩ := ihOthers
    exact ⟨after, hafter, .choose hheader hchild (hothers.branches_of_skipBlank hmiddle.symm)⟩
  | simple hheader hread => exact ⟨_, rfl, .simple hheader (parseSimple_append more hread)⟩
  | child hnext hindent hmore hblock ihBlock =>
    have hends := hblock.block_ends hfresh (by omega)
    have hwhole := ihBlock [] _ hends
    rw [List.append_nil] at hwhole
    exact ⟨_, skipBlank_idem _, .child (skipBlank_append_of_cons hnext more) hindent hmore hwhole⟩
  | noLine hnext => exact ⟨_, skipBlank_idem more, .noBranch_of_fresh hfresh hnext⟩
  | noBranch hnext hindent hother =>
    exact ⟨_, rfl, .noBranch (skipBlank_append_of_cons hnext more) hindent hother⟩
  | elif hnext hindent hheader _ _ ihChild ihOthers =>
    obtain ⟨middle, hmiddle, hchild⟩ := ihChild
    obtain ⟨after, hafter, hothers⟩ := ihOthers
    exact ⟨after, hafter, .elif (skipBlank_append_of_cons hnext more) hindent
      hheader hchild (hothers.branches_of_skipBlank hmiddle.symm)⟩
  | otherwise hnext hindent hheader _ _ ihChild ihOthers =>
    obtain ⟨middle, hmiddle, hchild⟩ := ihChild
    obtain ⟨after, hafter, hothers⟩ := ihOthers
    exact ⟨after, hafter, .otherwise (skipBlank_append_of_cons hnext more)
      hindent hheader hchild (hothers.branches_of_skipBlank hmiddle.symm)⟩

theorem Parses.fresh {body : List Statement}
    (hblock : Parses (.block 0 more body rest)) : Fresh more := by
  intro line lines hline
  cases hblock with
  | finish hnext =>
    rw [hline] at hnext
    cases hnext
  | dedent _ _ hless => omega
  | cons hnext hindent hfirst _ =>
    rw [hline] at hnext
    cases hnext
    refine ⟨hindent, ?_⟩
    cases hfirst with
    | forEach hheader _ =>
      obtain ⟨tail, htail⟩ := List.isPrefixOf_iff_prefix.mp hheader.word
      exact continuesChoice_of_head htail.symm (by decide)
    | choose hheader _ _ =>
      obtain ⟨tail, htail⟩ := List.isPrefixOf_iff_prefix.mp hheader.word
      exact continuesChoice_of_head htail.symm (by decide)
    | simple hheader _ =>
      simp only [isHeader, Bool.or_eq_false_iff] at hheader
      exact hheader.2

end Extension

/-! ## Texts below each other -/

def numbered (n : Nat) (texts : List Text) : List Line :=
  (texts.zipIdx n).map fun (text, i) => ⟨i + 1, text⟩

theorem numbered_append (n : Nat) (texts others : List Text) : numbered n (texts ++ others) =
      numbered n texts ++ numbered (n + texts.length) others := by
  rw [numbered, List.zipIdx_append, List.map_append]
  rfl

theorem numbered_eq_down (n : Nat) (texts : List Text) :
    numbered n texts = (numbered 0 texts).map (Line.down n) := by
  have hshift : texts.zipIdx n = (texts.zipIdx 0).map (Prod.map id (· + n)) :=
    (List.map_snd_add_zipIdx_eq_zipIdx (n := n) (k := 0)).symm
  rw [numbered, hshift, numbered, List.map_map, List.map_map]
  apply List.map_congr_left
  intro entry _
  simp [Line.down]
  omega

/-- Two programs with an end of line between them are a program. -/
theorem parseProgram_append {source other : Text} {program rest : Program}
    (hsource : parseProgram source = .ok program)
    (hother : parseProgram other = .ok rest) :
    parseProgram (source ++ '\n' :: other) =
      .ok (program ++
        downBody (Text.splitLines (source ++ ['\n'])).length rest) := by
  obtain ⟨tail, htail, hnewline, hsplit⟩ := splitLines_newline source
  rw [parseProgram_eq_ok_iff] at hsource hother ⊢
  generalize hn : (Text.splitLines (source ++ ['\n'])).length = n
  have hlines : linesOf (source ++ '\n' :: other) = linesOf source ++
      (numbered (Text.splitLines source).length tail ++
        (linesOf other).map (Line.down n)) := by
    have hall : linesOf (source ++ '\n' :: other) = numbered 0
        (Text.splitLines source ++ tail ++ Text.splitLines other) := by
      rw [← hnewline, ← hsplit]
      rfl
    rw [hall, numbered_append, numbered_append, Nat.zero_add, Nat.zero_add,
      ← hnewline, hn, numbered_eq_down n, List.append_assoc]
    rfl
  have hblank : skipBlank (numbered (Text.splitLines source).length tail) =
      [] := by
    rcases htail with rfl | rfl <;> rfl
  have hbelow : Parses (.block 0
      (numbered (Text.splitLines source).length tail ++
        (linesOf other).map (Line.down n)) (downBody n rest) []) := by
    apply (hother.down n).block_of_skipBlank
    rw [skipBlank_append _ (List.map _ _), hblank, List.nil_append]
  rw [hlines]
  exact hsource.extends hbelow.fresh _ _ hbelow

theorem parseProgram_append_choice :
    ∃ program rest,
      parseProgram "if a:\n  b # c\r".toList = .ok program ∧
      parseProgram "\nx = [1,\n2]\ny".toList = .ok rest ∧
      parseProgram ("if a:\n  b # c\r".toList ++
        '\n' :: "\nx = [1,\n2]\ny".toList) =
        .ok (program ++ downBody 2 rest) := by
  have hfirst : ∃ program,
      parseProgram "if a:\n  b # c\r".toList = .ok program := by
    apply exists_parseProgram
    decide +kernel
  have hsecond : ∃ rest,
      parseProgram "\nx = [1,\n2]\ny".toList = .ok rest := by
    apply exists_parseProgram
    decide +kernel
  obtain ⟨program, hprogram⟩ := hfirst
  obtain ⟨rest, hrest⟩ := hsecond
  exact ⟨program, rest, hprogram, hrest, parseProgram_append hprogram hrest⟩

end Folio.Source

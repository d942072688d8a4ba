import Folio.Proofs.BlockReading

/-!
# The structure of blocks

A program that was read shows the layout of its lines.  Each of its statements
stands on a line of its own that is not blank, at the indentation of that line,
and the statements come in the order of their lines.  The statements of a block
are aligned, further to the right than the statement that the block belongs to.

The lines on which statements start are followed through the rules: they are
taken from the lines that a reader uses up, in their order.
-/

namespace Folio.Source

variable {lines rest : List Line} {indent : Nat} {line : Line} {statement : Statement}

/-! ## Statements in their order -/

mutual

/-- A statement, followed by all statements in its blocks. -/
def Statement.listing : Statement → List Statement
  | .assign name value loc => [.assign name value loc]
  | .expr value loc => [.expr value loc]
  | .forEach name source body loc => .forEach name source body loc :: listingBody body
  | .choose branches otherwise loc =>
    .choose branches otherwise loc ::
      (listingBranches branches ++ listingOtherwise otherwise)
  | .misplaced loc => [.misplaced loc]

def listingBody : List Statement → List Statement
  | [] => []
  | statement :: rest => statement.listing ++ listingBody rest

def listingBranches : List (Expr × List Statement) → List Statement
  | [] => []
  | (_, body) :: rest => listingBody body ++ listingBranches rest

def listingOtherwise : Option (List Statement) → List Statement
  | none => []
  | some body => listingBody body

end

def Statement.blocks : Statement → List (List Statement)
  | .forEach _ _ body _ => [body]
  | .choose branches otherwise _ => branches.map Prod.snd ++ otherwise.toList
  | _ => []

def Statement.column? (statement : Statement) : Option Int :=
  statement.loc.map Location.column

/-- The line of a statement is above that of another one. -/
def Statement.Precedes (statement other : Statement) : Prop :=
  ∃ first second, statement.loc = some first ∧ other.loc = some second ∧
    first.line < second.line

def spaceCount (text : Text) : Nat :=
  (text.takeWhile (· == ' ')).length

/-- A program has the layout of its source. -/
structure LaidOut (source : Text) (program : Program) : Prop where
  complete : parseBlock 0 (4 * (linesOf source).length + 4) (linesOf source) = .ok (program, [])
  placed : ∀ statement ∈ listingBody program, ∃ (i : Nat) (text : Text),
    (Text.splitLines source)[i]? = some text ∧ isBlankLine text = false ∧
      statement.loc = some ⟨i + 1, spaceCount text + 1⟩
  ordered : (listingBody program).Pairwise Statement.Precedes
  aligned : ∀ statement ∈ program, statement.column? = some 1
  nested : ∀ statement ∈ listingBody program, ∀ block ∈ statement.blocks,
    block ≠ [] ∧ ∃ column outer, statement.column? = some outer ∧
      outer < column ∧ ∀ inner ∈ block, inner.column? = some column

/-! ## Lines of statements -/

/-- A statement starts on a line. -/
structure StandsOn (statement : Statement) (line : Line) : Prop where
  solid : isBlankLine line.text = false
  loc : ∃ indent, line.indent = .ok indent ∧ statement.loc = some ⟨line.number, indent + 1⟩

/-- Items stand on some of the lines that were used, in their order. -/
def Takes {α : Type} (stands : α → Line → Prop) (lines rest : List Line)
    (items : List α) : Prop :=
  ∃ used heads, lines = used ++ rest ∧ heads.Sublist used ∧
    List.Forall₂ stands items heads

section Takes

variable {α : Type} {stands : α → Line → Prop}

theorem Takes.refl (lines : List Line) : Takes stands lines lines [] := ⟨[], [], rfl, .slnil, .nil⟩

theorem Takes.trans {middle : List Line} {items others : List α}
    (htakes : Takes stands lines middle items) (hothers : Takes stands middle rest others) :
    Takes stands lines rest (items ++ others) := by
  obtain ⟨used, heads, rfl, hsublist, hstands⟩ := htakes
  obtain ⟨more, tails, rfl, hmore, htails⟩ := hothers
  refine ⟨used ++ more, heads ++ tails, by simp, hsublist.append hmore, ?_⟩
  exact List.rel_append hstands htails

theorem Takes.of_suffix (hsuffix : rest <:+ lines) : Takes stands lines rest [] := by
  obtain ⟨used, rfl⟩ := hsuffix
  exact ⟨used, [], rfl, List.nil_sublist used, .nil⟩

theorem Takes.cons {line : Line} {lines rest : List Line} {item : α} {items : List α}
    (hstands : stands item line) (htakes : Takes stands lines rest items) :
    Takes stands (line :: lines) rest (item :: items) := by
  obtain ⟨used, heads, rfl, hsublist, hheads⟩ := htakes
  exact ⟨line :: used, line :: heads, rfl, hsublist.cons_cons line, .cons hstands hheads⟩

theorem Takes.of_skipBlank {after : List Line} {items : List α} (hnext : skipBlank lines = after)
    (htakes : Takes stands after rest items) :
    Takes stands lines rest items := (Takes.of_suffix (hnext ▸ skipBlank_suffix lines)).trans htakes

end Takes

/-- Statements start on some of the lines that were used, in their order. -/
def Uses (lines rest : List Line) (statements : List Statement) : Prop :=
  ∃ used heads, lines = used ++ rest ∧ heads.Sublist used ∧
    List.Forall₂ StandsOn statements heads

theorem Uses.refl (lines : List Line) : Uses lines lines [] := Takes.refl lines

theorem Uses.trans {lines middle rest : List Line} {statements others : List Statement}
    (huses : Uses lines middle statements)
    (hothers : Uses middle rest others) : Uses lines rest (statements ++ others) :=
  Takes.trans huses hothers

theorem Uses.of_suffix {lines rest : List Line} (hsuffix : rest <:+ lines) : Uses lines rest [] :=
  Takes.of_suffix hsuffix

theorem Uses.cons {line : Line} {lines rest : List Line} {statement : Statement}
    {statements : List Statement} (hstands : StandsOn statement line)
    (huses : Uses lines rest statements) : Uses (line :: lines) rest (statement :: statements) :=
  Takes.cons hstands huses

theorem Uses.of_skipBlank {lines after rest : List Line} {statements : List Statement}
    (hnext : skipBlank lines = after)
    (huses : Uses after rest statements) : Uses lines rest statements :=
  Takes.of_skipBlank hnext huses

/-- The statements that a reader gives start on the lines that it uses up. -/
def Judgement.Uses : Judgement → Prop
  | .block _ lines body rest => Source.Uses lines rest (listingBody body)
  | .statement line indent lines read rest =>
    isBlankLine line.text = false → line.indent = .ok indent →
      Source.Uses (line :: lines) rest read.listing
  | .child _ lines body rest => Source.Uses lines rest (listingBody body)
  | .branches _ none lines read otherwise rest =>
    Source.Uses lines rest (listingBranches read ++ listingOtherwise otherwise)
  | .branches _ (some before) _ read otherwise _ => read = [] ∧ otherwise = some before

theorem Parses.uses {judgement : Judgement} (hparses : Parses judgement) : judgement.Uses := by
  induction hparses with
  | finish hnext => exact .of_skipBlank hnext (.refl [])
  | dedent hnext _ _ => exact .of_skipBlank hnext (.refl _)
  | cons hnext hindent _ _ ihFirst ihOthers =>
    have hfirst := ihFirst (not_blank_of_skipBlank hnext) hindent
    exact .of_skipBlank hnext (hfirst.trans ihOthers)
  | forEach _ _ ihChild =>
    intro hsolid hindent
    exact .cons ⟨hsolid, _, hindent, rfl⟩ ihChild
  | choose _ _ _ ihChild ihOthers =>
    intro hsolid hindent
    have hblocks := ihChild.trans ihOthers
    rw [← List.append_assoc] at hblocks
    exact .cons ⟨hsolid, _, hindent, rfl⟩ hblocks
  | simple _ hread =>
    intro hsolid hindent
    have hrest := Uses.of_suffix (parseSimple_suffix hread)
    rcases parseSimple_eq_ok_iff.mp hread with
      ⟨_, _, _, -, -, -, -, -, rfl⟩ | ⟨_, _, -, -, -, rfl⟩
    · exact .cons ⟨hsolid, _, hindent, rfl⟩ hrest
    · exact .cons ⟨hsolid, _, hindent, rfl⟩ hrest
  | child hnext _ _ _ ihBlock => exact .of_skipBlank hnext ihBlock
  | @noLine _ before _ hnext =>
    cases before with
    | none => exact .of_skipBlank hnext (.refl [])
    | some body => exact ⟨rfl, rfl⟩
  | @noBranch _ _ before _ _ _ hnext _ _ =>
    cases before with
    | none => exact .of_skipBlank hnext (.refl _)
    | some body => exact ⟨rfl, rfl⟩
  | @elif _ _ rest _ _ line _ _ _ _ hnext _ _ _ _ ihChild ihOthers =>
    have hheader : Uses (line :: rest) rest [] := Uses.of_suffix (List.suffix_cons line rest)
    have hblocks := ihChild.trans ihOthers
    rw [← List.append_assoc] at hblocks
    exact .of_skipBlank hnext (hheader.trans hblocks)
  | @otherwise _ _ rest _ _ line _ _ _ hnext _ _ _ hothers ihChild ihOthers =>
    obtain ⟨rfl, rfl⟩ := ihOthers
    have hheader : Uses (line :: rest) rest [] := Uses.of_suffix (List.suffix_cons line rest)
    have hblocks := ihChild.trans (Uses.of_suffix hothers.suffix)
    rw [List.append_nil] at hblocks
    exact .of_skipBlank hnext (hheader.trans hblocks)

/-! ## Columns of blocks -/

/-- A block with statements, aligned at a column to the right of another one. -/
def Indented (outer : Int) (block : List Statement) : Prop :=
  block ≠ [] ∧ ∃ column, outer < column ∧
    ∀ statement ∈ block, statement.column? = some column

def Statement.Nests (statement : Statement) : Prop :=
  ∃ outer, statement.column? = some outer ∧
    ∀ block ∈ statement.blocks, Indented outer block

def Judgement.Nests : Judgement → Prop
  | .block indent _ body _ =>
    (∀ statement ∈ body, statement.column? = some ((indent : Int) + 1)) ∧
      ∀ statement ∈ listingBody body, statement.Nests
  | .statement _ indent _ read _ =>
    read.column? = some ((indent : Int) + 1) ∧
      ∀ statement ∈ read.listing, statement.Nests
  | .child indent _ body _ =>
    Indented (indent + 1) body ∧
      ∀ statement ∈ listingBody body, statement.Nests
  | .branches indent none _ read otherwise _ =>
    (∀ block ∈ read.map Prod.snd ++ otherwise.toList,
      Indented (indent + 1) block) ∧
      ∀ statement ∈ listingBranches read ++ listingOtherwise otherwise,
        statement.Nests
  | .branches _ (some before) _ read otherwise _ => read = [] ∧ otherwise = some before

theorem Parses.body_ne_nil {last : List Line} {body : List Statement}
    (hsolid : isBlankLine line.text = false) (hindent : line.indent = .ok indent)
    (hblock : Parses (.block indent (line :: rest) body last)) : body ≠ [] := by
  have hskip := skipBlank_cons_of_solid hsolid rest
  cases hblock with
  | finish hnext =>
    rw [hskip] at hnext
    cases hnext
  | dedent hnext hfound hless =>
    rw [hskip] at hnext
    cases hnext
    rw [hindent] at hfound
    cases hfound
    omega
  | cons => simp

theorem Parses.nests {judgement : Judgement} (hparses : Parses judgement) : judgement.Nests := by
  induction hparses with
  | finish _ => exact ⟨by simp, by simp [listingBody]⟩
  | dedent _ _ _ => exact ⟨by simp, by simp [listingBody]⟩
  | cons _ _ _ _ ihFirst ihOthers =>
    refine ⟨List.forall_mem_cons.mpr ⟨ihFirst.1, ihOthers.1⟩, ?_⟩
    exact List.forall_mem_append.mpr ⟨ihFirst.2, ihOthers.2⟩
  | forEach _ _ ihChild =>
    refine ⟨rfl, List.forall_mem_cons.mpr ⟨⟨_, rfl, ?_⟩, ihChild.2⟩⟩
    exact List.forall_mem_singleton.mpr ihChild.1
  | choose _ _ _ ihChild ihOthers =>
    obtain ⟨hbody, hinner⟩ := ihChild
    obtain ⟨hblocks, hothers⟩ := ihOthers
    refine ⟨rfl, List.forall_mem_cons.mpr ⟨⟨_, rfl, ?_⟩, ?_⟩⟩
    · exact List.forall_mem_cons.mpr ⟨hbody, hblocks⟩
    · rw [listingBranches, List.append_assoc]
      exact List.forall_mem_append.mpr ⟨hinner, hothers⟩
  | simple _ hread =>
    rcases parseSimple_eq_ok_iff.mp hread with
      ⟨_, _, _, -, -, -, -, -, rfl⟩ | ⟨_, _, -, -, -, rfl⟩
    · refine ⟨rfl, List.forall_mem_singleton.mpr ⟨_, rfl, ?_⟩⟩
      simp [Statement.blocks]
    · refine ⟨rfl, List.forall_mem_singleton.mpr ⟨_, rfl, ?_⟩⟩
      simp [Statement.blocks]
  | @child indent found _ _ _ _ _ hnext hindent hmore hblock ihBlock =>
    have hne := hblock.body_ne_nil (not_blank_of_skipBlank hnext) hindent
    exact ⟨⟨hne, found + 1, by omega, ihBlock.1⟩, ihBlock.2⟩
  | @noLine _ before _ _ =>
    cases before with
    | none => exact ⟨by simp, by simp [listingBranches, listingOtherwise]⟩
    | some body => exact ⟨rfl, rfl⟩
  | @noBranch _ _ before _ _ _ _ _ _ =>
    cases before with
    | none => exact ⟨by simp, by simp [listingBranches, listingOtherwise]⟩
    | some body => exact ⟨rfl, rfl⟩
  | elif _ _ _ _ _ ihChild ihOthers =>
    obtain ⟨hbody, hinner⟩ := ihChild
    obtain ⟨hblocks, hothers⟩ := ihOthers
    refine ⟨List.forall_mem_cons.mpr ⟨hbody, hblocks⟩, ?_⟩
    rw [listingBranches, List.append_assoc]
    exact List.forall_mem_append.mpr ⟨hinner, hothers⟩
  | otherwise _ _ _ _ _ ihChild ihOthers =>
    obtain ⟨rfl, rfl⟩ := ihOthers
    exact ⟨List.forall_mem_singleton.mpr ihChild.1, ihChild.2⟩

/-! ## Programs -/

theorem mem_linesOf_iff {source : Text} : line ∈ linesOf source ↔ ∃ i, line.number = i + 1 ∧
      (Text.splitLines source)[i]? = some line.text := by
  simp only [linesOf, List.mem_map, Prod.exists, List.mem_zipIdx_iff_getElem?]
  constructor
  · rintro ⟨text, i, htext, rfl⟩
    exact ⟨i, rfl, htext⟩
  · rintro ⟨i, hnumber, htext⟩
    exact ⟨line.text, i, htext, by rw [← hnumber]⟩

theorem pairwise_linesOf (source : Text) :
    (linesOf source).Pairwise fun line other => line.number < other.number := by
  rw [linesOf, List.pairwise_map, List.pairwise_iff_getElem]
  intro i j hi hj hless
  simpa using hless

theorem indentation_eq_ok {text : Text}
    (hindent : indentation text = .ok indent) : indent = spaceCount text := by
  rw [indentation] at hindent
  split at hindent
  · cases hindent
  · exact (Except.ok.inj hindent).symm

theorem Line.indent_eq_spaceCount
    (hindent : line.indent = .ok indent) : indent = spaceCount line.text :=
  indentation_eq_ok (Line.indent_eq_ok_iff.mp hindent)

theorem exists_line {statements : List Statement} (hstands : List.Forall₂ StandsOn statements lines)
    (hmem : statement ∈ statements) : ∃ line ∈ lines, StandsOn statement line := by
  induction hstands with
  | nil => cases hmem
  | @cons _ line _ _ hfirst _ ih =>
    rcases List.mem_cons.mp hmem with rfl | hmem
    · exact ⟨line, List.mem_cons_self, hfirst⟩
    · obtain ⟨below, hbelow, hstands⟩ := ih hmem
      exact ⟨below, List.mem_cons_of_mem line hbelow, hstands⟩

theorem StandsOn.precedes {other : Statement} {below : Line} (hstands : StandsOn statement line)
    (hbelow : StandsOn other below)
    (hless : line.number < below.number) : statement.Precedes other := by
  obtain ⟨first, -, hfirst⟩ := hstands.loc
  obtain ⟨second, -, hsecond⟩ := hbelow.loc
  exact ⟨_, _, hfirst, hsecond, by simpa using hless⟩

theorem pairwise_precedes {statements : List Statement}
    (hstands : List.Forall₂ StandsOn statements lines)
    (hlines : lines.Pairwise fun line other => line.number < other.number) :
    statements.Pairwise Statement.Precedes := by
  induction hstands with
  | nil => exact .nil
  | cons hfirst hrest ih =>
    obtain ⟨hbelow, hlines⟩ := List.pairwise_cons.mp hlines
    apply List.Pairwise.cons _ (ih hlines)
    intro other hother
    obtain ⟨below, hmem, hstands⟩ := exists_line hrest hother
    exact hfirst.precedes hstands (hbelow below hmem)

theorem StandsOn.placed {source : Text} (hstands : StandsOn statement line)
    (hline : line ∈ linesOf source) :
    ∃ (i : Nat) (text : Text), (Text.splitLines source)[i]? = some text ∧ isBlankLine text = false ∧
        statement.loc = some ⟨i + 1, spaceCount text + 1⟩ := by
  obtain ⟨i, hnumber, htext⟩ := mem_linesOf_iff.mp hline
  obtain ⟨indent, hindent, hloc⟩ := hstands.loc
  refine ⟨i, line.text, htext, hstands.solid, ?_⟩
  rw [hloc, hnumber, Line.indent_eq_spaceCount hindent]
  rfl

/-- Reading a program uses up all lines, and the program has their layout. -/
theorem laidOut_of_parseProgram {source : Text} {program : Program}
    (hread : parseProgram source = .ok program) : LaidOut source program := by
  have hparses := parseProgram_eq_ok_iff.mp hread
  obtain ⟨hcolumns, hnests⟩ := hparses.nests
  obtain ⟨used, heads, hlines, hsublist, hstands⟩ := hparses.uses
  rw [List.append_nil] at hlines
  rw [← hlines] at hsublist
  constructor
  case complete => exact parseBlock_program_iff.mpr hparses
  case placed =>
    intro statement hmem
    obtain ⟨line, hline, hstands⟩ := exists_line hstands hmem
    exact hstands.placed (hsublist.subset hline)
  case ordered =>
    exact pairwise_precedes hstands ((pairwise_linesOf source).sublist hsublist)
  case aligned => exact hcolumns
  case nested =>
    intro statement hmem block hblock
    obtain ⟨outer, houter, hblocks⟩ := hnests statement hmem
    obtain ⟨hne, column, hless, hcolumn⟩ := hblocks block hblock
    exact ⟨hne, column, outer, houter, hless, hcolumn⟩

/-- A loop over a choice, with a blank line, a comment and a continued line. -/
def nestedSource : Text :=
  "for a in x:\n\n  if a: # so\n      b\n  else:\n    c = [\n a]\nx".toList

theorem laidOut_nestedSource :
    ∃ program, parseProgram nestedSource = .ok program ∧
      (listingBody program).map Statement.loc =
        [some ⟨1, 1⟩, some ⟨3, 3⟩, some ⟨4, 7⟩, some ⟨6, 5⟩, some ⟨8, 1⟩] ∧
      LaidOut nestedSource program := by
  have hlocs : (parseProgram nestedSource).toOption.map
      (fun program => (listingBody program).map Statement.loc) =
        some [some ⟨1, 1⟩, some ⟨3, 3⟩, some ⟨4, 7⟩, some ⟨6, 5⟩, some ⟨8, 1⟩] := by
    decide +kernel
  cases hread : parseProgram nestedSource with
  | error refusal =>
      rw [hread] at hlocs
      cases hlocs
  | ok program =>
      rw [hread] at hlocs
      exact ⟨program, rfl, Option.some.inj hlocs, laidOut_of_parseProgram hread⟩

end Folio.Source

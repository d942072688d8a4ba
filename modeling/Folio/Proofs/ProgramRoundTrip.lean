import Folio.Proofs.WrittenProgram

/-!
# Reading programs back

A well-formed program is read back from its text, up to the places of its nodes.
The induction is over the program.  Each reader is followed by lines that it
leaves alone: a block ends at a line further to the left, and a choice at a line
that starts neither another branch nor a line further to the right.
-/

namespace Folio.Source

variable {indent : Nat} {lines rest : List Line} {line : Line} {content : Text} {name : String}
   {value : Expr} {body : List Statement}

/-! ## Lines after a statement -/

def continuesChoice (content : Text) : Bool :=
  ['e', 'l', 'i', 'f', ' '].isPrefixOf content || content == elseContent

def Closes (indent : Nat) : List Line → Prop
  | [] => True
  | line :: _ => ∃ k content, line.text = pad k content ∧ Solid content ∧ k < indent

def Follows (indent : Nat) : List Line → Prop
  | [] => True
  | line :: _ =>
    ∃ k content, line.text = pad k content ∧ Solid content ∧ k ≤ indent ∧
      (k = indent → continuesChoice content = false)

theorem Closes.follows (hcloses : Closes indent lines) : Follows indent lines := by
  cases lines with
  | nil => trivial
  | cons line rest =>
    obtain ⟨k, content, htext, hsolid, hk⟩ := hcloses
    exact ⟨k, content, htext, hsolid, by omega, by omega⟩

theorem Follows.closes (hfollows : Follows indent lines) : Closes (indent + 4) lines := by
  cases lines with
  | nil => trivial
  | cons line rest =>
    obtain ⟨k, content, htext, hsolid, hk, -⟩ := hfollows
    exact ⟨k, content, htext, hsolid, by omega⟩

theorem parseBlock_closes (hcloses : Closes indent lines) (fuel : Nat) :
    parseBlock indent fuel lines = .ok ([], lines) := by
  cases fuel with
  | zero => rfl
  | succ fuel =>
    cases lines with
    | nil => rfl
    | cons line rest =>
      obtain ⟨k, content, htext, hsolid, hk⟩ := hcloses
      have hblank : isBlankLine line.text = false := by rw [htext, isBlankLine_pad k hsolid]
      simp [parseBlock, hblank, Line.indent_pad htext hsolid, hk, bind, Except.bind, pure,
        Except.pure]

theorem skipBlank_pad (htext : line.text = pad indent content) (hsolid : Solid content)
    (rest : List Line) : skipBlank (line :: rest) = line :: rest := by
  have hblank : isBlankLine line.text = false := by rw [htext, isBlankLine_pad indent hsolid]
  simp [skipBlank, hblank]

theorem parseBranches_follows
    (hfollows : Follows indent lines) (fuel : Nat) (otherwise : Option (List Statement)) :
    parseBranches indent fuel otherwise lines = .ok ([], otherwise, lines) := by
  cases fuel with
  | zero => rfl
  | succ fuel =>
    cases lines with
    | nil => rfl
    | cons line rest =>
      obtain ⟨k, content, htext, hsolid, hk, hother⟩ := hfollows
      rw [parseBranches, skipBlank_pad htext hsolid]
      simp only [Line.indent_pad htext hsolid, Line.content_pad htext hsolid, bind, Except.bind]
      by_cases hindent : k = indent
      · have hcontinues := hother hindent
        simp only [continuesChoice, elseContent, Bool.or_eq_false_iff] at hcontinues
        simp only [hindent, bne_self_eq_false, Bool.false_eq_true, if_false, String.reduceToList,
          hcontinues.1, hcontinues.2]
        rfl
      · simp [hindent, pure, Except.pure]

theorem parseBlock_cons (htext : line.text = pad indent content) (hsolid : Solid content)
    (fuel : Nat) (rest : List Line) : parseBlock indent (fuel + 1) (line :: rest) = (do
      let (statement, rest) ← parseStatement fuel line indent rest
      let (statements, rest) ← parseBlock indent fuel rest
      return (statement :: statements, rest)) := by
  have hblank : isBlankLine line.text = false := by rw [htext, isBlankLine_pad indent hsolid]
  rw [parseBlock]
  simp only [hblank, Line.indent_pad htext hsolid, bind, Except.bind]
  simp

theorem parseChild_cons {header : Line} {inner : Nat} (htext : line.text = pad inner content)
    (hsolid : Solid content) (hinner : indent < inner) (fuel : Nat) (rest : List Line) :
    parseChild (fuel + 1) header indent (line :: rest) = parseBlock inner fuel (line :: rest) := by
  rw [parseChild, skipBlank_pad htext hsolid]
  simp only [Line.indent_pad htext hsolid, bind, Except.bind]
  simp [hinner]

/-! ## The first line of a statement -/

theorem continuesChoice_of_head {c : Char} {rest : Text} (hcontent : content = c :: rest)
    (hc : c ≠ 'e') : continuesChoice content = false := by
  subst hcontent
  simp [continuesChoice, elseContent, List.isPrefixOf, Ne.symm hc, hc]

theorem blank_not_mem_of_isIdentifier {word : Text}
    (hword : isIdentifier word = true) : ' ' ∉ word := by
  intro hmem
  have hchar := isWordChar_of_isIdentifier hword ' ' hmem
  rw [isWordChar_eq_false_of_isSpace (by decide)] at hchar
  exact absurd hchar (by decide)

theorem continuesChoice_assignContent (hname : isIdentifier name.toList = true) :
    continuesChoice (assignContent name value) = false := by
  have hblank := blank_not_mem_of_isIdentifier hname
  have helif : ['e', 'l', 'i', 'f', ' '].isPrefixOf (assignContent name value) = false :=
    not_isPrefixOf_assignContent ['e', 'l', 'i', 'f'] (by decide) hblank
  have helse : (assignContent name value == elseContent) = false := by
    rw [beq_eq_false_iff_ne]
    intro heq
    have hsign : '=' ∈ elseContent := by
      rw [← heq]
      simp [assignContent]
    exact absurd hsign (by decide)
  simp [continuesChoice, helif, helse]

theorem Statement.lines_eq_cons (statement : Statement) (indent : Nat)
    (hwf : statement.WellFormed) :
    ∃ content more, statement.lines indent = pad indent content :: more ∧
      Solid content ∧ continuesChoice content = false := by
  cases statement with
  | assign name value loc =>
    exact ⟨_, [], rfl, solid_assignContent hwf.1 hwf.2, continuesChoice_assignContent hwf.1⟩
  | expr value loc => exact ⟨_, [], rfl, solid_written hwf, continuesChoice_of_head rfl (by decide)⟩
  | forEach name source body loc =>
    exact ⟨_, _, rfl, solid_forContent hwf.1 hwf.2.1, continuesChoice_of_head rfl (by decide)⟩
  | choose branches otherwise loc =>
    obtain ⟨hne, hbranches, -⟩ := hwf
    cases branches with
    | nil => exact absurd rfl hne
    | cons branch rest =>
      obtain ⟨condition, body⟩ := branch
      exact ⟨_, _, rfl, solid_branchContent (Or.inl rfl) hbranches.1,
        continuesChoice_of_head rfl (by decide)⟩
  | misplaced loc => exact hwf.elim

theorem bodyLines_eq_cons (indent : Nat) (hne : body ≠ []) (hwf : BodyWellFormed body) :
    ∃ content more, bodyLines body indent = pad indent content :: more ∧
      Solid content ∧ continuesChoice content = false := by
  cases body with
  | nil => exact absurd rfl hne
  | cons statement rest =>
    obtain ⟨content, more, hlines, hsolid, hother⟩ := statement.lines_eq_cons indent hwf.1
    exact ⟨content, more ++ bodyLines rest indent, by rw [bodyLines, hlines, List.cons_append],
      hsolid, hother⟩

theorem follows_bodyLines (hwf : BodyWellFormed body)
    (hlines : lines.map Line.text = bodyLines body indent)
    (hrest : Closes indent rest) : Follows indent (lines ++ rest) := by
  by_cases hne : body = []
  · subst hne
    obtain rfl := List.map_eq_nil_iff.mp hlines
    exact hrest.follows
  · obtain ⟨content, more, hcons, hsolid, hother⟩ := bodyLines_eq_cons indent hne hwf
    obtain ⟨line, after, rfl, htext, -⟩ := List.map_eq_cons_iff.mp (hlines.trans hcons)
    exact ⟨indent, content, htext, hsolid, le_rfl, fun _ => hother⟩

theorem parseChild_bodyLines (hne : body ≠ []) (hwf : BodyWellFormed body)
    (hlines : lines.map Line.text = bodyLines body (indent + 4)) (header : Line) (fuel : Nat) :
    parseChild (fuel + 1) header indent (lines ++ rest) =
      parseBlock (indent + 4) fuel (lines ++ rest) := by
  obtain ⟨content, more, hcons, hsolid, -⟩ := bodyLines_eq_cons (indent + 4) hne hwf
  obtain ⟨line, after, rfl, htext, -⟩ := List.map_eq_cons_iff.mp (hlines.trans hcons)
  exact parseChild_cons htext hsolid (by omega) fuel (after ++ rest)

/-! ## Reading an expression of a line -/

theorem Line.parseExpr_written {e : Expr} (hwf : e.WellFormed) (line : Line) (column : Nat) :
    ∃ read, line.parseExpr e.written column = .ok read ∧ read.unplaced = e.unplaced := by
  obtain ⟨read, hread, hsame⟩ := hwf.parseExpr ⟨line.number, column⟩
  exact ⟨read, by rw [Line.parseExpr, hread], hsame⟩

theorem collect_written {e : Expr} (hwf : e.WellFormed) (line : Line)
    (rest : List Line) : collect line e.written rest = .ok (e.written, rest) := by
  rw [collect, hwf.balance]
  unfold continued
  rfl

theorem parseSimple_assignContent (hname : isIdentifier name.toList = true) (hwf : value.WellFormed)
    (line : Line) (indent : Nat) (rest : List Line) : ∃ parsed,
      parseSimple line indent (assignContent name value) rest = .ok (parsed, rest) ∧
      parsed.unplaced = (Statement.assign name value none).unplaced := by
  obtain ⟨read, hread, hsame⟩ := Line.parseExpr_written hwf line
    (columnOf indent (assignContent name value) value.written)
  have htarget : Text.strip ((assignContent name value).take name.toList.length) = name.toList := by
    rw [assignContent, List.take_left']
    · exact strip_eq_self fun c hc => isSpace_eq_false_of_isWordChar
        (isWordChar_of_isIdentifier hname c hc)
    · rfl
  have hvalue : Text.strip ((assignContent name value).drop (name.toList.length + 1)) =
        value.written := by
    rw [assignContent, List.drop_length_add_append]
    exact strip_written value
  have hnonempty : value.written.isEmpty = false := by simp [Expr.written]
  refine ⟨.assign name read (some ⟨line.number, indent + 1⟩), ?_, ?_⟩
  · rw [parseSimple, findAssignment_assignContent hname]
    simp only [htarget, hvalue, hname, hnonempty, collect_written hwf, hread, Bool.not_true,
      Bool.false_eq_true, if_false, bind, Except.bind, pure, Except.pure, String.ofList_toList]
  · simp [Statement.unplaced, hsame]

theorem parseSimple_written (hwf : value.WellFormed) (line : Line) (indent : Nat)
    (rest : List Line) : ∃ parsed, parseSimple line indent value.written rest = .ok (parsed, rest) ∧
      parsed.unplaced = (Statement.expr value none).unplaced := by
  obtain ⟨read, hread, hsame⟩ := Line.parseExpr_written hwf line (indent + 1)
  refine ⟨.expr read (some ⟨line.number, indent + 1⟩), ?_, ?_⟩
  · rw [parseSimple, hwf.findAssignment]
    simp [collect_written hwf, hread, bind, Except.bind, pure, Except.pure]
  · simp [Statement.unplaced, hsame]

/-! ## Reading statements -/

theorem parseStatement_for
    {source : Expr} (hname : isIdentifier name.toList = true) (hwf : source.WellFormed)
    (htext : line.text = pad indent (forContent name source)) (fuel : Nat) (rest : List Line) :
    ∃ read, read.unplaced = source.unplaced ∧ parseStatement (fuel + 1) line indent rest = (do
        let (body, rest) ← parseChild fuel line indent rest
        return (.forEach name read body (some ⟨line.number, indent + 1⟩), rest)) := by
  have hcontent := Line.content_pad htext (solid_forContent hname hwf)
  obtain ⟨read, hread, hsame⟩ := Line.parseExpr_written hwf line
    (columnOf indent (forContent name source) source.written)
  refine ⟨read, hsame, ?_⟩
  have hfor : "for ".toList.isPrefixOf (forContent name source) = true := by
    simp [forContent, List.isPrefixOf]
  rw [parseStatement]
  simp only [hcontent, hfor, forParts?_forContent hname, hread, if_true, bind, Except.bind,
    String.ofList_toList]

theorem parseStatement_if {condition : Expr} (hwf : condition.WellFormed)
    (htext : line.text = pad indent (branchContent ['i', 'f'] condition)) (fuel : Nat)
    (rest : List Line) : ∃ read, read.unplaced = condition.unplaced ∧
      parseStatement (fuel + 1) line indent rest = (do
        let (body, rest) ← parseChild fuel line indent rest
        let (branches, otherwise, rest) ← parseBranches indent fuel none rest
        return (.choose ((read, body) :: branches) otherwise
          (some ⟨line.number, indent + 1⟩), rest)) := by
  have hcontent := Line.content_pad htext (solid_branchContent (Or.inl rfl) hwf)
  obtain ⟨read, hread, hsame⟩ := Line.parseExpr_written hwf line
    (columnOf indent (branchContent ['i', 'f'] condition) condition.written)
  refine ⟨read, hsame, ?_⟩
  have hfor : "for ".toList.isPrefixOf (branchContent ['i', 'f'] condition) = false := by
    simp [branchContent, List.isPrefixOf]
  have hif : "if ".toList.isPrefixOf (branchContent ['i', 'f'] condition) = true := by
    simp [branchContent, List.isPrefixOf]
  rw [parseStatement]
  simp only [hcontent, hfor, hif, ifCondition?_branchContent, hread, Bool.false_eq_true, if_false,
    if_true, bind, Except.bind]

theorem parseBranches_elif {condition : Expr} (hwf : condition.WellFormed) (htext : line.text =
      pad indent (branchContent ['e', 'l', 'i', 'f'] condition)) (fuel : Nat) (rest : List Line) :
    ∃ read, read.unplaced = condition.unplaced ∧
      parseBranches indent (fuel + 1) none (line :: rest) = (do
        let (body, rest) ← parseChild fuel line indent rest
        let (branches, otherwise, rest) ← parseBranches indent fuel none rest
        return ((read, body) :: branches, otherwise, rest)) := by
  have hsolid : Solid (branchContent ['e', 'l', 'i', 'f'] condition) :=
    solid_branchContent (Or.inr rfl) hwf
  obtain ⟨read, hread, hsame⟩ := Line.parseExpr_written hwf line
    (columnOf indent (branchContent ['e', 'l', 'i', 'f'] condition) condition.written)
  refine ⟨read, hsame, ?_⟩
  have helif : "elif ".toList.isPrefixOf (branchContent ['e', 'l', 'i', 'f'] condition) = true := by
    simp [branchContent, List.isPrefixOf]
  rw [parseBranches, skipBlank_pad htext hsolid]
  simp only [Line.indent_pad htext hsolid, Line.content_pad htext hsolid, helif,
    elifCondition?_branchContent, hread, bne_self_eq_false, Bool.false_eq_true, if_false, if_true,
    Option.isSome_none, bind, Except.bind]

theorem parseBranches_else
    (htext : line.text = pad indent elseContent) (fuel : Nat) (rest : List Line) :
    parseBranches indent (fuel + 1) none (line :: rest) = (do
      let (body, rest) ← parseChild fuel line indent rest
      parseBranches indent fuel (some body) rest) := by
  have helif : "elif ".toList.isPrefixOf elseContent = false := by
    simp [elseContent, List.isPrefixOf]
  have helse : (elseContent == "else:".toList) = true := by simp [elseContent]
  rw [parseBranches, skipBlank_pad htext solid_elseContent]
  simp only [Line.indent_pad htext solid_elseContent, Line.content_pad htext solid_elseContent,
    helif, helse, bne_self_eq_false, Bool.false_eq_true, if_false, if_true, Option.isSome_none,
    bind, Except.bind]

theorem parseStatement_simple (htext : line.text = pad indent content) (hsolid : Solid content)
    (hother : continuesChoice content = false)
    (hfor : ['f', 'o', 'r', ' '].isPrefixOf content = false)
    (hif : ['i', 'f', ' '].isPrefixOf content = false) (fuel : Nat) (rest : List Line) :
    parseStatement (fuel + 1) line indent rest = parseSimple line indent content rest := by
  simp only [continuesChoice, elseContent, Bool.or_eq_false_iff] at hother
  rw [parseStatement]
  simp only [Line.content_pad htext hsolid, String.reduceToList, hfor, hif, hother.1, hother.2,
    Bool.false_eq_true, if_false]

theorem closes_branches {branches : List (Expr × List Statement)}
    {otherwise : Option (List Statement)} (hwf : BranchesWellFormed branches)
    (hlines : lines.map Line.text =
      branchLines ['e', 'l', 'i', 'f'] branches indent ++ otherwiseLines otherwise indent)
    (hrest : Follows indent rest) : Closes (indent + 4) (lines ++ rest) := by
  match branches, otherwise with
  | [], none =>
    obtain rfl := List.map_eq_nil_iff.mp hlines
    exact hrest.closes
  | [], some body =>
    obtain ⟨line, more, rfl, htext, -⟩ := List.map_eq_cons_iff.mp hlines
    exact ⟨indent, elseContent, htext, solid_elseContent, by omega⟩
  | (condition, body) :: others, otherwise =>
    obtain ⟨line, more, rfl, htext, -⟩ := List.map_eq_cons_iff.mp hlines
    exact ⟨indent, _, htext, solid_branchContent (Or.inr rfl) hwf.1, by omega⟩

mutual

theorem Statement.parses (statement : Statement) (hwf : statement.WellFormed) {indent fuel : Nat}
    {line : Line} {more rest : List Line}
    (hlines : (line :: more).map Line.text = statement.lines indent) (hrest : Follows indent rest)
    (hfuel : 4 * (more.length + 1) ≤ fuel) :
    ∃ parsed, parseStatement fuel line indent (more ++ rest) = .ok (parsed, rest) ∧
      parsed.unplaced = statement.unplaced := by
  obtain ⟨fuel, rfl⟩ : ∃ less, fuel = less + 1 := ⟨fuel - 1, by omega⟩
  match statement with
  | .assign name value loc =>
    obtain ⟨hname, hvalue⟩ := hwf
    simp only [List.map_cons, Statement.lines, List.cons.injEq, List.map_eq_nil_iff] at hlines
    obtain ⟨htext, rfl⟩ := hlines
    have hblank := blank_not_mem_of_isIdentifier hname
    obtain ⟨parsed, hparsed, hsame⟩ := parseSimple_assignContent hname hvalue line indent rest
    refine ⟨parsed, ?_, hsame⟩
    rw [List.nil_append, parseStatement_simple htext
      (solid_assignContent hname hvalue) (continuesChoice_assignContent hname)
      (not_isPrefixOf_assignContent ['f', 'o', 'r'] (by decide) hblank)
      (not_isPrefixOf_assignContent ['i', 'f'] (by decide) hblank), hparsed]
  | .expr value loc =>
    simp only [List.map_cons, Statement.lines, List.cons.injEq, List.map_eq_nil_iff] at hlines
    obtain ⟨htext, rfl⟩ := hlines
    obtain ⟨parsed, hparsed, hsame⟩ := parseSimple_written hwf line indent rest
    refine ⟨parsed, ?_, hsame⟩
    rw [List.nil_append, parseStatement_simple htext (solid_written hwf)
      (continuesChoice_of_head rfl (by decide)) (by simp [Expr.written, List.isPrefixOf])
      (by simp [Expr.written, List.isPrefixOf]), hparsed]
  | .forEach name source body loc =>
    obtain ⟨hname, hsource, hne, hbody⟩ := hwf
    simp only [List.map_cons, Statement.lines, List.cons.injEq] at hlines
    obtain ⟨htext, hmore⟩ := hlines
    obtain ⟨read, hread, hparse⟩ := parseStatement_for hname hsource htext fuel (more ++ rest)
    obtain ⟨fuel, rfl⟩ : ∃ less, fuel = less + 1 := ⟨fuel - 1, by omega⟩
    have henough : 4 * more.length + 1 ≤ fuel := by omega
    obtain ⟨parsed, hparsed, hsame⟩ := bodyParses body hbody hmore hrest.closes henough
    refine ⟨.forEach name read parsed (some ⟨line.number, indent + 1⟩), ?_, ?_⟩
    · rw [hparse, parseChild_bodyLines hne hbody hmore, hparsed]
      rfl
    · simp [Statement.unplaced, hread, hsame]
  | .choose [] otherwise loc => exact absurd rfl hwf.1
  | .choose ((condition, body) :: branches) otherwise loc =>
    obtain ⟨-, ⟨hcondition, hne, hbody, hbranches⟩, hotherwise⟩ := hwf
    simp only [List.map_cons, Statement.lines, branchLines, List.cons_append, List.cons.injEq,
      List.append_assoc] at hlines
    obtain ⟨htext, hmore⟩ := hlines
    obtain ⟨inner, after, rfl, hinner, hafter⟩ := List.map_eq_append_iff.mp hmore
    simp only [List.length_append] at hfuel
    obtain ⟨read, hread, hparse⟩ :=
      parseStatement_if hcondition htext fuel ((inner ++ after) ++ rest)
    obtain ⟨fuel, rfl⟩ : ∃ less, fuel = less + 1 := ⟨fuel - 1, by omega⟩
    have hcloses : Closes (indent + 4) (after ++ rest) := closes_branches hbranches hafter hrest
    have hblock : 4 * inner.length + 1 ≤ fuel := by omega
    obtain ⟨parsed, hparsed, hsame⟩ := bodyParses body hbody hinner hcloses hblock
    have hothers : 4 * after.length ≤ fuel + 1 := by omega
    obtain ⟨others, last, hothers, hbranch, hlast⟩ :=
      branchesParse branches otherwise hbranches hotherwise hafter hrest hothers
    refine ⟨.choose ((read, parsed) :: others) last (some ⟨line.number, indent + 1⟩), ?_, ?_⟩
    · rw [hparse, List.append_assoc, parseChild_bodyLines hne hbody hinner, hparsed]
      simp [bind, Except.bind, hothers, pure, Except.pure]
    · simp [Statement.unplaced, unplacedBranches, hread, hsame, hbranch, hlast]
  | .misplaced loc => exact hwf.elim
termination_by sizeOf statement

theorem bodyParses (body : List Statement) (hwf : BodyWellFormed body) {indent fuel : Nat}
    {lines rest : List Line} (hlines : lines.map Line.text = bodyLines body indent)
    (hrest : Closes indent rest) (hfuel : 4 * lines.length + 1 ≤ fuel) :
    ∃ parsed, parseBlock indent fuel (lines ++ rest) = .ok (parsed, rest) ∧
      unplacedBody parsed = unplacedBody body := by
  match body with
  | [] =>
    obtain rfl := List.map_eq_nil_iff.mp hlines
    exact ⟨[], parseBlock_closes hrest fuel, rfl⟩
  | statement :: others =>
    obtain ⟨hstatement, hothers⟩ := hwf
    obtain ⟨own, after, rfl, hown, hafter⟩ := List.map_eq_append_iff.mp hlines
    obtain ⟨content, texts, hcons, hsolid, -⟩ := statement.lines_eq_cons indent hstatement
    obtain ⟨line, more, rfl, htext, -⟩ := List.map_eq_cons_iff.mp (hown.trans hcons)
    simp only [List.length_append, List.length_cons] at hfuel
    obtain ⟨fuel, rfl⟩ : ∃ less, fuel = less + 1 := ⟨fuel - 1, by omega⟩
    have hown' : 4 * (more.length + 1) ≤ fuel := by omega
    obtain ⟨parsed, hparsed, hsame⟩ := statement.parses hstatement hown
      (follows_bodyLines hothers hafter hrest) hown'
    have hafter' : 4 * after.length + 1 ≤ fuel := by omega
    obtain ⟨block, hblock, hbody⟩ := bodyParses others hothers hafter hrest hafter'
    refine ⟨parsed :: block, ?_, by simp [unplacedBody, hsame, hbody]⟩
    rw [List.cons_append, List.cons_append, List.append_assoc, parseBlock_cons htext hsolid,
      hparsed]
    simp [bind, Except.bind, hblock, pure, Except.pure]
termination_by sizeOf body

theorem branchesParse (branches : List (Expr × List Statement))
    (otherwise : Option (List Statement)) (hwf : BranchesWellFormed branches)
    (hotherwise : OtherwiseWellFormed otherwise) {indent fuel : Nat} {lines rest : List Line}
    (hlines : lines.map Line.text = branchLines ['e', 'l', 'i', 'f'] branches indent ++
        otherwiseLines otherwise indent) (hrest : Follows indent rest)
    (hfuel : 4 * lines.length ≤ fuel) :
    ∃ parsed last, parseBranches indent fuel none (lines ++ rest) = .ok (parsed, last, rest) ∧
      unplacedBranches parsed = unplacedBranches branches ∧
      unplacedOtherwise last = unplacedOtherwise otherwise := by
  match branches, otherwise with
  | [], none =>
    obtain rfl := List.map_eq_nil_iff.mp hlines
    exact ⟨[], none, parseBranches_follows hrest fuel none, rfl, rfl⟩
  | [], some body =>
    obtain ⟨hne, hbody⟩ := hotherwise
    obtain ⟨line, inner, rfl, htext, hinner⟩ := List.map_eq_cons_iff.mp hlines
    simp only [List.length_cons] at hfuel
    obtain ⟨fuel, rfl⟩ : ∃ less, fuel = less + 2 := ⟨fuel - 2, by omega⟩
    have henough : 4 * inner.length + 1 ≤ fuel := by omega
    obtain ⟨parsed, hparsed, hsame⟩ := bodyParses body hbody hinner hrest.closes henough
    refine ⟨[], some parsed, ?_, rfl, by simp [unplacedOtherwise, hsame]⟩
    rw [List.cons_append, parseBranches_else htext, parseChild_bodyLines hne hbody hinner, hparsed]
    exact parseBranches_follows hrest (fuel + 1) (some parsed)
  | (condition, body) :: others, otherwise =>
    obtain ⟨hcondition, hne, hbody, hothers⟩ := hwf
    simp only [branchLines, List.cons_append, List.append_assoc] at hlines
    obtain ⟨line, more, rfl, htext, hmore⟩ := List.map_eq_cons_iff.mp hlines
    obtain ⟨inner, after, rfl, hinner, hafter⟩ := List.map_eq_append_iff.mp hmore
    simp only [List.length_cons, List.length_append] at hfuel
    obtain ⟨fuel, rfl⟩ : ∃ less, fuel = less + 2 := ⟨fuel - 2, by omega⟩
    obtain ⟨read, hread, hparse⟩ := parseBranches_elif hcondition htext
      (fuel + 1) ((inner ++ after) ++ rest)
    have hcloses : Closes (indent + 4) (after ++ rest) := closes_branches hothers hafter hrest
    have hblock : 4 * inner.length + 1 ≤ fuel := by omega
    obtain ⟨parsed, hparsed, hsame⟩ := bodyParses body hbody hinner hcloses hblock
    have hrestFuel : 4 * after.length ≤ fuel + 1 := by omega
    obtain ⟨branches, last, hbranches, hsameBranches, hlast⟩ :=
      branchesParse others otherwise hothers hotherwise hafter hrest hrestFuel
    refine ⟨(read, parsed) :: branches, last, ?_,
      by simp [unplacedBranches, hread, hsame, hsameBranches], hlast⟩
    rw [List.cons_append, hparse, List.append_assoc, parseChild_bodyLines hne hbody hinner, hparsed]
    simp [bind, Except.bind, hbranches, pure, Except.pure]
termination_by sizeOf branches + sizeOf otherwise

end

/-! ## Reading programs -/

/-- A line of a program: an indentation and a solid content. -/
def IsLine (text : Text) : Prop :=
  ∃ indent content, text = pad indent content ∧ Solid content

mutual

theorem Statement.isLine (statement : Statement) (hwf : statement.WellFormed) (indent : Nat) :
    ∀ text ∈ statement.lines indent, IsLine text := by
  match statement with
  | .assign name value loc =>
    intro text htext
    obtain rfl := List.mem_singleton.mp htext
    exact ⟨indent, _, rfl, solid_assignContent hwf.1 hwf.2⟩
  | .expr value loc =>
    intro text htext
    obtain rfl := List.mem_singleton.mp htext
    exact ⟨indent, _, rfl, solid_written hwf⟩
  | .forEach name source body loc =>
    obtain ⟨hname, hsource, -, hbody⟩ := hwf
    intro text htext
    rcases List.mem_cons.mp htext with rfl | htext
    · exact ⟨indent, _, rfl, solid_forContent hname hsource⟩
    · exact isLine_of_mem_bodyLines body hbody (indent + 4) text htext
  | .choose branches otherwise loc =>
    intro text htext
    rcases List.mem_append.mp htext with htext | htext
    · exact isLine_of_mem_branchLines branches hwf.2.1 (Or.inl rfl) indent text htext
    · match otherwise with
      | none => simp [otherwiseLines] at htext
      | some body =>
        rcases List.mem_cons.mp htext with rfl | htext
        · exact ⟨indent, _, rfl, solid_elseContent⟩
        · exact isLine_of_mem_bodyLines body hwf.2.2.2 (indent + 4) text htext
  | .misplaced loc => exact hwf.elim
termination_by sizeOf statement

theorem isLine_of_mem_bodyLines (body : List Statement) (hwf : BodyWellFormed body) (indent : Nat) :
    ∀ text ∈ bodyLines body indent, IsLine text := by
  match body with
  | [] => simp [bodyLines]
  | statement :: rest =>
    intro text htext
    rcases List.mem_append.mp htext with htext | htext
    · exact statement.isLine hwf.1 indent text htext
    · exact isLine_of_mem_bodyLines rest hwf.2 indent text htext
termination_by sizeOf body

theorem isLine_of_mem_branchLines {keyword : Text} (branches : List (Expr × List Statement))
    (hwf : BranchesWellFormed branches)
    (hkeyword : keyword = ['i', 'f'] ∨ keyword = ['e', 'l', 'i', 'f']) (indent : Nat) :
    ∀ text ∈ branchLines keyword branches indent, IsLine text := by
  match branches with
  | [] => simp [branchLines]
  | (condition, body) :: rest =>
    obtain ⟨hcondition, -, hbody, hrest⟩ := hwf
    intro text htext
    rcases List.mem_cons.mp htext with rfl | htext
    · exact ⟨indent, _, rfl, solid_branchContent hkeyword hcondition⟩
    · rcases List.mem_append.mp htext with htext | htext
      · exact isLine_of_mem_bodyLines body hbody (indent + 4) text htext
      · exact isLine_of_mem_branchLines rest hrest (Or.inr rfl) indent text htext
termination_by sizeOf branches

end

theorem IsLine.oneLine {text : Text} (hline : IsLine text) :
    ∀ c ∈ text, Text.isLineEnd c = false := by
  obtain ⟨indent, content, rfl, hsolid⟩ := hline
  intro c hc
  rcases List.mem_append.mp hc with hc | hc
  · rw [List.eq_of_mem_replicate hc]
    decide
  · exact hsolid.oneLine c hc

theorem map_text_linesOf (source : Text) :
    (linesOf source).map Line.text = Text.splitLines source := by
  simp [linesOf, Function.comp_def]

/-- A well-formed program is read back from its text, up to places. -/
theorem parseProgram_render (program : Program)
    (hwf : BodyWellFormed program) :
    ∃ parsed, parseProgram (render program) = .ok parsed ∧
      unplacedBody parsed = unplacedBody program := by
  have hlines : (linesOf (render program)).map Line.text =
      bodyLines program 0 := by
    rw [map_text_linesOf, render, splitLines_flatMap]
    intro line hline
    exact (isLine_of_mem_bodyLines program hwf 0 line hline).oneLine
  have hcloses : Closes 0 [] := trivial
  have hfuel : 4 * (linesOf (render program)).length + 1 ≤
      4 * (linesOf (render program)).length + 4 := by omega
  obtain ⟨parsed, hparsed, hsame⟩ :=
    bodyParses program hwf hlines hcloses hfuel
  rw [List.append_nil] at hparsed
  exact ⟨parsed, by rw [parseProgram, hparsed]; rfl, hsame⟩

/-- A loop over a string that holds signs, marks and ends of lines. -/
def loopProgram : Program :=
  [.forEach "in" (.constant (.text ['#', '"', '\\', '\n', ':', '=']) none)
    [.choose
      [(.compare .isIn (.name "x" none)
          (.list [.range (.constant (.int 1) none)
            (.constant (.int 12) none) none] none) none,
        [.assign "for"
          (.call (.attribute (.name "d" none) "f" none) []
            [("k", .unary .negate (.constant (.bool true) none) none)] none)
          none])]
      (some [.expr (.name "x" none) none]) none] none]

theorem loopProgram_read_back :
    BodyWellFormed loopProgram ∧
    ∃ parsed, parseProgram (render loopProgram) = .ok parsed ∧
      unplacedBody parsed = unplacedBody loopProgram := by
  have hwf : BodyWellFormed loopProgram := by
    have hname : ∀ c ∈ ['x', 'd', 'f', 'k'], IsName [c] := by
      intro c hc
      simp only [List.mem_cons, List.not_mem_nil, or_false] at hc
      have halpha : c.isAlpha = true := by
        rcases hc with rfl | rfl | rfl | rfl <;> decide
      have hkeyword : Keyword.ofSpelling? [c] = none := by
        rcases hc with rfl | rfl | rfl | rfl <;> rfl
      exact ⟨isDigit_of_charIsAlpha halpha,
        Or.inl (isLetter_of_charIsAlpha halpha), by simp, hkeyword⟩
    have hdigits : ∀ n ∈ [1, 12],
        (Text.ofNat n).length ≤ Decimal.maxDigits := by
      decide
    simp only [loopProgram, BodyWellFormed, Statement.WellFormed,
      BranchesWellFormed, OtherwiseWellFormed, Expr.WellFormed,
      ItemsWellFormed, AllWellFormed, NamedWellFormed, Constant.WellFormed]
    simp [hname, hdigits, isIdentifier]
    decide
  exact ⟨hwf, parseProgram_render loopProgram hwf⟩

end Folio.Source

import Folio.Proofs.WrittenLine
import Folio.Source.Statement.Parser

/-!
# Programs in writing

A program is written one statement after the other, with the block of a header
four columns further to the right.  Every line is made of blanks and a content
that starts and ends with something else, so that the reader finds the
indentation and the content again.
-/

namespace Folio.Source

open Text (isSpace isLineEnd)

variable {content : Text} {name : String}

/-! ## Programs without their places -/

mutual

def Statement.unplaced : Statement → Statement
  | .assign name value _ => .assign name value.unplaced none
  | .expr value _ => .expr value.unplaced none
  | .forEach name source body _ => .forEach name source.unplaced (unplacedBody body) none
  | .choose branches otherwise _ =>
    .choose (unplacedBranches branches) (unplacedOtherwise otherwise) none
  | .misplaced _ => .misplaced none

def unplacedBody : List Statement → List Statement
  | [] => []
  | statement :: rest => statement.unplaced :: unplacedBody rest

def unplacedBranches :
    List (Expr × List Statement) → List (Expr × List Statement)
  | [] => []
  | (condition, body) :: rest => (condition.unplaced, unplacedBody body) :: unplacedBranches rest

def unplacedOtherwise : Option (List Statement) → Option (List Statement)
  | none => none
  | some body => some (unplacedBody body)

end

/-! ## Well-formed programs -/

mutual

/-- Statements of the language: blocks are not empty, and variables are ASCII
identifiers. -/
def Statement.WellFormed : Statement → Prop
  | .assign name value _ => isIdentifier name.toList = true ∧ value.WellFormed
  | .expr value _ => value.WellFormed
  | .forEach name source body _ =>
    isIdentifier name.toList = true ∧ source.WellFormed ∧ body ≠ [] ∧
      BodyWellFormed body
  | .choose branches otherwise _ =>
    branches ≠ [] ∧ BranchesWellFormed branches ∧
      OtherwiseWellFormed otherwise
  | .misplaced _ => False

def BodyWellFormed : List Statement → Prop
  | [] => True
  | statement :: rest => statement.WellFormed ∧ BodyWellFormed rest

def BranchesWellFormed : List (Expr × List Statement) → Prop
  | [] => True
  | (condition, body) :: rest =>
    condition.WellFormed ∧ body ≠ [] ∧ BodyWellFormed body ∧
      BranchesWellFormed rest

def OtherwiseWellFormed : Option (List Statement) → Prop
  | none => True
  | some body => body ≠ [] ∧ BodyWellFormed body

end

/-! ## The lines of a program -/

def pad (indent : Nat) (content : Text) : Text :=
  List.replicate indent ' ' ++ content

def assignContent (name : String) (value : Expr) : Text :=
  name.toList ++ '=' :: value.written

def forContent (name : String) (source : Expr) : Text :=
  ['f', 'o', 'r', ' '] ++
    (name.toList ++ ([' ', 'i', 'n', ' '] ++ (source.written ++ [':'])))

def branchContent (keyword : Text) (condition : Expr) : Text :=
  keyword ++ ' ' :: (condition.written ++ [':'])

def elseContent : Text :=
  ['e', 'l', 's', 'e', ':']

mutual

def Statement.lines : Statement → Nat → List Text
  | .assign name value _, indent => [pad indent (assignContent name value)]
  | .expr value _, indent => [pad indent value.written]
  | .forEach name source body _, indent =>
    pad indent (forContent name source) :: bodyLines body (indent + 4)
  | .choose branches otherwise _, indent =>
    branchLines ['i', 'f'] branches indent ++ otherwiseLines otherwise indent
  | .misplaced _, _ => []

def bodyLines : List Statement → Nat → List Text
  | [], _ => []
  | statement :: rest, indent => statement.lines indent ++ bodyLines rest indent

/-- The lines of branches, the first of which starts with `keyword`. -/
def branchLines (keyword : Text) :
    List (Expr × List Statement) → Nat → List Text
  | [], _ => []
  | (condition, body) :: rest, indent =>
    pad indent (branchContent keyword condition) ::
      (bodyLines body (indent + 4) ++
        branchLines ['e', 'l', 'i', 'f'] rest indent)

def otherwiseLines : Option (List Statement) → Nat → List Text
  | none, _ => []
  | some body, indent => pad indent elseContent :: bodyLines body (indent + 4)

end

def render (program : Program) : Text :=
  (bodyLines program 0).flatMap fun line => line ++ ['\n']

/-! ## Solid lines -/

/-- Content that a line gives back: it has no comment and no blanks at its ends,
and no character of it ends a line. -/
structure Solid (content : Text) : Prop where
  uncommented : beforeComment .outside content = content
  starts : ∃ first rest, content = first :: rest ∧ isSpace first = false
  ends : ∃ front last, content = front ++ [last] ∧ isSpace last = false
  oneLine : ∀ c ∈ content, isLineEnd c = false

theorem stripComment_pad (indent : Nat) (hsolid : Solid content) :
    stripComment (pad indent content) = pad indent content := by
  rw [stripComment, pad, beforeComment_unmarked, hsolid.uncommented]
  intro c hc
  rw [List.eq_of_mem_replicate hc]
  simp [Unmarked]

theorem isBlankLine_pad (indent : Nat)
    (hsolid : Solid content) : isBlankLine (pad indent content) = false := by
  obtain ⟨first, rest, rfl, hfirst⟩ := hsolid.starts
  rw [isBlankLine, stripComment_pad indent hsolid, Text.isBlank, pad]
  simp [hfirst]

theorem indentation_pad (indent : Nat) (hsolid : Solid content) :
    indentation (pad indent content) = .ok indent := by
  obtain ⟨first, rest, rfl, hfirst⟩ := hsolid.starts
  have hblank : (first == ' ') = false := by
    rw [beq_eq_false_iff_ne]
    rintro rfl
    exact absurd hfirst (by decide)
  have htab : first ≠ '\t' := by
    rintro rfl
    exact absurd hfirst (by decide)
  have hspaces : (pad indent (first :: rest)).takeWhile (· == ' ') = List.replicate indent ' ' := by
    rw [pad, List.takeWhile_append_of_pos (by simp)]
    simp [hblank]
  rw [indentation, hspaces]
  simp [pad, htab]

theorem Line.indent_pad {line : Line} {indent : Nat} (htext : line.text = pad indent content)
    (hsolid : Solid content) : line.indent = .ok indent := by
  rw [Line.indent, htext, indentation_pad indent hsolid]

theorem stripEnd_of_ends {text : Text}
    (hends : ∃ front last, text = front ++ [last] ∧ isSpace last = false) :
    Text.stripEnd isSpace text = text := by
  obtain ⟨front, last, rfl, hlast⟩ := hends
  simp [Text.stripEnd, hlast]

theorem Line.content_pad {line : Line} {indent : Nat} (htext : line.text = pad indent content)
    (hsolid : Solid content) : line.content indent = content := by
  have hends : ∃ front last, pad indent content = front ++ [last] ∧ isSpace last = false := by
    obtain ⟨front, last, rfl, hlast⟩ := hsolid.ends
    exact ⟨pad indent front, last, by simp [pad], hlast⟩
  rw [Line.content, htext, stripComment_pad indent hsolid, stripEnd_of_ends hends, pad]
  simp

/-! ## Contents of lines -/

theorem isWordChar_of_isIdentifier {word : Text} (hword : isIdentifier word = true) : ∀ c ∈ word,
    isWordChar c = true := by
  have hchar : ∀ c : Char, c.isAlpha = true ∨ c.isDigit = true ∨ c = '_' → isWordChar c = true := by
    rintro c (halpha | hdigit | rfl)
    · exact isWordChar_of_charIsAlpha halpha
    · exact isWordChar_of_charIsDigit hdigit
    · simp [isWordChar]
  cases word with
  | nil => simp
  | cons first rest =>
    simp only [isIdentifier, Bool.and_eq_true, Bool.or_eq_true, beq_iff_eq,
      List.all_eq_true] at hword
    intro c hc
    rcases List.mem_cons.mp hc with rfl | hc
    · exact hchar c (hword.1.imp_right Or.inr)
    · exact hchar c (or_assoc.mp (hword.2 c hc))

theorem isSpace_eq_false_of_isWordChar {c : Char}
    (hword : isWordChar c = true) : isSpace c = false := by
  by_contra hspace
  rw [isWordChar_eq_false_of_isSpace (by simpa using hspace)] at hword
  exact absurd hword (by decide)

theorem solid_around {e : Expr} {before after : Text} (hwf : e.WellFormed)
    (hbefore : ∀ c ∈ before, Unmarked c ∧ isLineEnd c = false)
    (hstarts : ∀ c, before.head? = some c → isSpace c = false)
    (hafter : after = [] ∨ after = [':']) : Solid (before ++ (e.written ++ after)) := by
  refine ⟨?_, ?_, ?_, ?_⟩
  · rw [beforeComment_unmarked fun c hc => (hbefore c hc).1, hwf.beforeComment]
    rcases hafter with rfl | rfl <;> simp [beforeComment]
  · cases before with
    | nil => exact ⟨'(', _, rfl, by decide⟩
    | cons first rest => exact ⟨first, _, rfl, hstarts first rfl⟩
  · rcases hafter with rfl | rfl
    · obtain ⟨front, hfront⟩ := e.written_eq_append
      exact ⟨before ++ front, ')', by simp [hfront], by decide⟩
    · exact ⟨before ++ e.written, ':', by simp, by decide⟩
  · intro c hc
    simp only [List.mem_append] at hc
    rcases hc with hc | hc | hc
    · exact (hbefore c hc).2
    · exact hwf.oneLine c hc
    · rcases hafter with rfl | rfl
      · simp at hc
      · obtain rfl := List.mem_singleton.mp hc
        decide

theorem solid_written {e : Expr} (hwf : e.WellFormed) : Solid e.written := by
  have hsolid : Solid ([] ++ (e.written ++ [])) := solid_around hwf (by simp) (by simp) (Or.inl rfl)
  simpa using hsolid

theorem solid_assignContent {value : Expr} (hname : isIdentifier name.toList = true)
    (hwf : value.WellFormed) : Solid (assignContent name value) := by
  have hword := isWordChar_of_isIdentifier hname
  have hsolid : Solid ((name.toList ++ ['=']) ++ (value.written ++ [])) := by
    refine solid_around hwf ?_ ?_ (Or.inl rfl)
    · intro c hc
      rcases List.mem_append.mp hc with hc | hc
      · obtain ⟨hmark, -, hend⟩ := scan_wordChar (hword c hc)
        exact ⟨hmark, hend⟩
      · obtain rfl := List.mem_singleton.mp hc
        exact ⟨by simp [Unmarked], by decide⟩
    · intro c hc
      cases hlist : name.toList with
      | nil => simp [hlist, isIdentifier] at hname
      | cons first rest =>
        simp only [hlist, List.cons_append, List.head?_cons, Option.some.injEq] at hc
        exact isSpace_eq_false_of_isWordChar (hword c (by simp [hlist, hc]))
  simpa [assignContent] using hsolid

theorem solid_forContent {source : Expr} (hname : isIdentifier name.toList = true)
    (hwf : source.WellFormed) : Solid (forContent name source) := by
  have hword := isWordChar_of_isIdentifier hname
  have hsolid : Solid ((['f', 'o', 'r', ' '] ++ (name.toList ++ [' ', 'i', 'n', ' '])) ++
      (source.written ++ [':'])) := by
    refine solid_around hwf ?_ ?_ (Or.inr rfl)
    · intro c hc
      simp only [List.mem_append] at hc
      rcases hc with hc | hc | hc
      · simp only [List.mem_cons, List.not_mem_nil, or_false] at hc
        rcases hc with rfl | rfl | rfl | rfl <;> exact ⟨by simp [Unmarked], by decide⟩
      · obtain ⟨hmark, -, hend⟩ := scan_wordChar (hword c hc)
        exact ⟨hmark, hend⟩
      · simp only [List.mem_cons, List.not_mem_nil, or_false] at hc
        rcases hc with rfl | rfl | rfl | rfl <;> exact ⟨by simp [Unmarked], by decide⟩
    · intro c hc
      simp only [List.cons_append, List.head?_cons, Option.some.injEq] at hc
      subst hc
      decide
  simpa [forContent] using hsolid

theorem solid_branchContent {keyword : Text} {condition : Expr}
    (hkeyword : keyword = ['i', 'f'] ∨ keyword = ['e', 'l', 'i', 'f'])
    (hwf : condition.WellFormed) : Solid (branchContent keyword condition) := by
  have hsolid : Solid ((keyword ++ [' ']) ++ (condition.written ++ [':'])) := by
    refine solid_around hwf ?_ ?_ (Or.inr rfl)
    · intro c hc
      rcases hkeyword with rfl | rfl <;>
        simp only [List.cons_append, List.nil_append, List.mem_cons, List.not_mem_nil,
          or_false] at hc
      · rcases hc with rfl | rfl | rfl <;> exact ⟨by simp [Unmarked], by decide⟩
      · rcases hc with rfl | rfl | rfl | rfl | rfl <;> exact ⟨by simp [Unmarked], by decide⟩
    · intro c hc
      rcases hkeyword with rfl | rfl <;> simp at hc <;> subst hc <;> decide
  simpa [branchContent] using hsolid

theorem solid_elseContent : Solid elseContent where
  uncommented := rfl
  starts := ⟨'e', ['l', 's', 'e', ':'], rfl, by decide⟩
  ends := ⟨['e', 'l', 's', 'e'], ':', rfl, by decide⟩
  oneLine := by
    intro c hc
    simp only [elseContent, List.mem_cons, List.not_mem_nil, or_false] at hc
    rcases hc with rfl | rfl | rfl | rfl | rfl <;> decide

/-! ## Reading headers and assignments -/

theorem strip_written (e : Expr) : Text.strip e.written = e.written := by
  obtain ⟨front, hfront⟩ := e.written_eq_append
  have hopen : isSpace '(' = false := by decide
  have hstart : Text.stripStart isSpace e.written = e.written := by
    rw [Text.stripStart, Expr.written, List.dropWhile_cons_of_neg]
    simp [hopen]
  rw [Text.strip, Text.stripBy, hstart]
  exact stripEnd_of_ends ⟨front, ')', hfront, by decide⟩

theorem strip_eq_self {word : Text} (hword : ∀ c ∈ word, isSpace c = false) :
    Text.strip word = word := by
  have hdrop : ∀ text : Text, (∀ c ∈ text, isSpace c = false) → text.dropWhile isSpace = text := by
    intro text htext
    cases text with
    | nil => rfl
    | cons c rest =>
      rw [List.dropWhile_cons_of_neg]
      simp [htext c (by simp)]
  rw [Text.strip, Text.stripBy, Text.stripStart, hdrop word hword, Text.stripEnd,
    hdrop word.reverse (by simpa using hword), List.reverse_reverse]

theorem headerBody?_written (e : Expr) :
    headerBody? (' ' :: (e.written ++ [':'])) = some e.written := by
  have hblank : isSpace ' ' = true := by decide
  have hlength : 2 ≤ (e.written ++ [':']).length := by
    simp only [Expr.written, List.length_append, List.length_cons]
    omega
  have hlast : (e.written ++ [':']).getLast? = some ':' := List.getLast?_concat
  have hheader : (isSpace ' ' && decide ((e.written ++ [':']).length ≥ 2) &&
      (e.written ++ [':']).getLast? == some ':') = true := by
    simp only [hblank, hlast, decide_eq_true hlength, Bool.true_and, beq_self_eq_true]
  rw [headerBody?, if_pos hheader, List.dropLast_concat, strip_written]

theorem ifCondition?_branchContent (condition : Expr) :
    ifCondition? (branchContent ['i', 'f'] condition) = some condition.written := by
  simp [ifCondition?, branchContent, headerBody?_written]

theorem elifCondition?_branchContent (condition : Expr) :
    elifCondition? (branchContent ['e', 'l', 'i', 'f'] condition) = some condition.written := by
  simp [elifCondition?, branchContent, headerBody?_written]

theorem forParts?_forContent {source : Expr}
    (hname : isIdentifier name.toList = true) : forParts? (forContent name source) =
      some (name.toList, source.written) := by
  have hword := isWordChar_of_isIdentifier hname
  have hspace : ∀ c ∈ name.toList, isSpace c = false :=
    fun c hc => isSpace_eq_false_of_isWordChar (hword c hc)
  have hblank : isSpace ' ' = true := by decide
  have hletter : isSpace 'i' = false := by decide
  have hstart : ((forContent name source).drop 3).dropWhile isSpace =
      name.toList ++ (' ' :: 'i' :: 'n' :: ' ' :: (source.written ++ [':'])) := by
    cases hlist : name.toList with
    | nil => simp [hlist, isIdentifier] at hname
    | cons first rest =>
      have hfirst := hspace first (by simp [hlist])
      simp [forContent, hlist, hblank, hfirst]
  have hname' : ∀ c ∈ name.toList, (c.isAlpha || c.isDigit || c == '_') = true := by
    cases hlist : name.toList with
    | nil => simp
    | cons first rest =>
      simp only [hlist, isIdentifier, Bool.and_eq_true, Bool.or_eq_true, beq_iff_eq,
        List.all_eq_true] at hname ⊢
      intro c hc
      rcases List.mem_cons.mp hc with rfl | hc
      · tauto
      · exact hname.2 c hc
  have htake : (name.toList ++ (' ' :: 'i' :: 'n' :: ' ' :: (source.written ++ [':']))).takeWhile
        (fun c => c.isAlpha || c.isDigit || c == '_') = name.toList := by
    rw [List.takeWhile_append_of_pos hname']
    simp
  rw [forParts?, hstart, htake]
  simp [List.span_eq_takeWhile_dropWhile, hblank, hletter, hname, headerBody?_written]

theorem findAssignment_assignContent {value : Expr} (hname : isIdentifier name.toList = true) :
    findAssignment (assignContent name value) = some name.toList.length := by
  have hword := isWordChar_of_isIdentifier hname
  have hscan : ∀ (word : Text) (i : Nat) (before : Option Char), (∀ c ∈ word, isWordChar c = true) →
      before.any comparesBefore = false →
      assignmentFrom i before 0 .outside (word ++ '=' :: value.written) =
        some (i + word.length) := by
    intro word
    induction word with
    | nil =>
      intro i before _ hbefore
      simp [assignmentFrom, hbefore, Expr.written]
    | cons c word ih =>
      intro i before hall hbefore
      have hc := hall c (by simp)
      obtain ⟨hmark, hbracket, -⟩ := scan_wordChar hc
      have hne : ∀ d : Char, d.toNat < 128 → (d.isAlpha || d.isDigit || d == '_') = false → c ≠ d :=
        fun d => ne_of_isWordChar hc
      have hsign : (c == '=') = false := beq_eq_false_iff_ne.mpr (hne '=' (by decide) (by decide))
      have hcompares : comparesBefore c = false := by
        simp [comparesBefore, hne '=' (by decide) (by decide), hne '!' (by decide) (by decide),
          hne '<' (by decide) (by decide), hne '>' (by decide) (by decide)]
      have hdepth : deepen 0 c = 0 := by simp [deepen, hbracket]
      rw [List.cons_append, assignmentFrom, hsign]
      simp only [Bool.false_and, Bool.false_eq_true, if_false, hdepth, Quoting.step_outside hmark]
      rw [ih (i + 1) (some c) (fun d hd => hall d (by simp [hd])) (by simpa using hcompares)]
      simp only [List.length_cons, Option.some.injEq]
      omega
  have hfound := hscan name.toList 0 none hword rfl
  simpa [findAssignment, assignContent] using hfound

theorem not_isPrefixOf_assignContent (word : Text) {name rest : Text} (hword : '=' ∉ word)
    (hname : ' ' ∉ name) : (word ++ [' ']).isPrefixOf (name ++ '=' :: rest) = false := by
  induction word generalizing name with
  | nil =>
    cases name with
    | nil => simp [List.isPrefixOf]
    | cons c name =>
      have hne : ' ' ≠ c := by
        rintro rfl
        simp at hname
      simp [List.isPrefixOf, hne]
  | cons w word ih =>
    cases name with
    | nil =>
      have hne : w ≠ '=' := by
        rintro rfl
        simp at hword
      simp [List.isPrefixOf, hne]
    | cons c name =>
      simp only [List.cons_append, List.isPrefixOf, Bool.and_eq_false_imp]
      intro _
      exact ih (fun h => hword (by simp [h])) (fun h => hname (by simp [h]))

/-! ## Cutting a program into lines -/

theorem splitLines_go_append {text : Text} (htext : ∀ c ∈ text, isLineEnd c = false) (line : Text)
    (lines : List Text) (rest : Text) : Text.splitLines.go line lines (text ++ '\n' :: rest) =
      Text.splitLines.go [] ((line.reverse ++ text) :: lines) rest := by
  induction text generalizing line with
  | nil =>
    have hend : isLineEnd '\n' = true := by decide
    simp [Text.splitLines.go, hend]
  | cons c text ih =>
    have hc := htext c (by simp)
    have hreturn : c ≠ '\r' := by
      rintro rfl
      exact absurd hc (by decide)
    rw [List.cons_append, Text.splitLines.go]
    · rw [if_neg (by simp [hc]), ih fun d hd => htext d (by simp [hd])]
      simp
    · intro more h
      exact absurd h hreturn

theorem splitLines_flatMap {lines : List Text}
    (hlines : ∀ line ∈ lines, ∀ c ∈ line, isLineEnd c = false) :
    Text.splitLines (lines.flatMap fun line => line ++ ['\n']) = lines := by
  have hgo : ∀ done, Text.splitLines.go [] done
      (lines.flatMap fun line => line ++ ['\n']) = done.reverse ++ lines := by
    induction lines with
    | nil => simp [Text.splitLines.go]
    | cons line lines ih =>
      intro done
      have hline := splitLines_go_append (hlines line (by simp)) [] done
        (lines.flatMap fun line => line ++ ['\n'])
      rw [List.flatMap_cons, List.append_assoc, List.singleton_append, hline,
        ih fun other hother => hlines other (by simp [hother])]
      simp
  exact hgo []

end Folio.Source

import Folio.Proofs.WrittenExpression
import Folio.Source.Line

/-!
# Written expressions in a line

A line is looked at before it is cut into tokens: for its comment, for the
balance of its brackets and for the sign of an assignment.  Each of these scans
passes over quoted text.  A written expression gives none of them anything to
find: it has no comment, its brackets balance, and inside of its outer
parentheses no sign counts.
-/

namespace Folio.Source

open Text (isSpace isLineEnd)

variable {c : Char} {lexeme : Lexeme} {text : Text} {lexemes : List Lexeme}

/-! ## Scanning one lexeme -/

/-- Characters that are neither a quote nor the mark of a comment. -/
def Unmarked (c : Char) : Prop :=
  c ≠ '\'' ∧ c ≠ '"' ∧ c ≠ '#'

def Lexeme.isBracket : Lexeme → Bool
  | .symbol .openParen => true
  | .symbol .closeParen => true
  | .symbol .openBracket => true
  | .symbol .closeBracket => true
  | _ => false

theorem Quoting.step_outside (hmark : Unmarked c) : Quoting.outside.step c = .outside := by
  simp [Quoting.step, hmark.1, hmark.2.1]

theorem isWordChar_of_charIsDigit (hdigit : c.isDigit = true) : isWordChar c = true := by
  simp [isWordChar, Text.isAlphanumeric, isDigit_of_charIsDigit hdigit]

theorem ne_of_isWordChar {d : Char} (hword : isWordChar c = true) (hascii : d.toNat < 128)
    (hother : (d.isAlpha || d.isDigit || d == '_') = false) : c ≠ d := by
  rintro rfl
  simp [isWordChar_of_ascii hascii, hother] at hword

theorem isSpace_of_isLineEnd (hend : isLineEnd c = true) : isSpace c = true := by
  simp only [Text.isLineEnd, Text.isSpace, Bool.or_eq_true, Bool.and_eq_true, decide_eq_true_eq,
    beq_iff_eq] at hend ⊢
  omega

theorem scan_wordChar (hword : isWordChar c = true) :
    Unmarked c ∧ bracketChange c = 0 ∧ isLineEnd c = false := by
  have hne : ∀ d : Char, d.toNat < 128 → (d.isAlpha || d.isDigit || d == '_') = false → c ≠ d :=
    fun d => ne_of_isWordChar hword
  refine ⟨⟨hne _ (by decide) (by decide), hne _ (by decide) (by decide), hne _ (by decide)
    (by decide)⟩, ?_, ?_⟩
  · unfold bracketChange
    split
    · exact absurd rfl (hne '(' (by decide) (by decide))
    · exact absurd rfl (hne '[' (by decide) (by decide))
    · exact absurd rfl (hne ')' (by decide) (by decide))
    · exact absurd rfl (hne ']' (by decide) (by decide))
    · rfl
  · by_contra hend
    have hspace := isSpace_of_isLineEnd (by simpa using hend)
    simp [isWordChar_eq_false_of_isSpace hspace] at hword

theorem scan_spelled (hwritable : lexeme.Writable) (hstring : ∀ value, lexeme ≠ .string value)
    (hc : c ∈ lexeme.spelled) :
    Unmarked c ∧ (lexeme.isBracket = false → bracketChange c = 0) ∧ isLineEnd c = false := by
  have hword : isWordChar c = true → Unmarked c ∧ (lexeme.isBracket = false → bracketChange c = 0) ∧
        isLineEnd c = false := by
    intro hchar
    obtain ⟨hmark, hbracket, hend⟩ := scan_wordChar hchar
    exact ⟨hmark, fun _ => hbracket, hend⟩
  cases lexeme with
  | number digits => exact hword (isWordChar_of_charIsDigit (hwritable.2 c hc))
  | string value => exact absurd rfl (hstring value)
  | name word =>
    cases word with
    | nil => exact hwritable.elim
    | cons first rest =>
      obtain ⟨-, hfirst, hrest, -⟩ := hwritable
      apply hword
      rcases List.mem_cons.mp hc with rfl | hmem
      · rcases hfirst with hletter | rfl
        · simp [isWordChar, Text.isAlphanumeric, hletter]
        · simp [isWordChar]
      · exact hrest c hmem
  | keyword k word =>
    have hword' : word = k.word := hwritable
    have halpha := k.isAlpha_of_mem_word c (hword' ▸ hc)
    exact hword (isWordChar_of_charIsAlpha halpha)
  | symbol s =>
    cases s <;> simp only [Lexeme.spelled, Symbol.spelling, List.mem_cons, List.not_mem_nil,
      or_false] at hc <;> rcases hc with rfl | rfl <;>
      exact ⟨by simp [Unmarked], by decide, by decide⟩
  | finish => exact hwritable.elim

/-! ## Text between quotes -/

def Hidden : Quoting → Text → Prop
  | _, [] => True
  | q, c :: rest => q ≠ .outside ∧ Hidden (q.step c) rest

theorem Hidden.append {q : Quoting} {rest : Text} (htext : Hidden q text)
    (hrest : Hidden (text.foldl Quoting.step q) rest) : Hidden q (text ++ rest) := by
  induction text generalizing q with
  | nil => exact hrest
  | cons c text ih => exact ⟨htext.1, ih htext.2 hrest⟩

theorem hidden_escape (c : Char) : Hidden (.inside '"') (escape c) ∧
      (escape c).foldl Quoting.step (.inside '"') = .inside '"' := by
  unfold escape
  split
  · simp [Hidden, Quoting.step]
  · simp [Hidden, Quoting.step]
  · simp [Hidden, Quoting.step]
  · simp [Hidden, Quoting.step]
  · rename_i hslash hquote _ _
    have hslash' : c ≠ '\\' := hslash
    have hquote' : c ≠ '"' := hquote
    simp [Hidden, Quoting.step, hslash', hquote']

theorem hidden_flatMap_escape (value : Text) : Hidden (.inside '"') (value.flatMap escape) ∧
      (value.flatMap escape).foldl Quoting.step (.inside '"') = .inside '"' := by
  induction value with
  | nil => exact ⟨trivial, rfl⟩
  | cons c value ih =>
    obtain ⟨hhidden, hstate⟩ := hidden_escape c
    rw [List.flatMap_cons, List.foldl_append, hstate]
    exact ⟨hhidden.append (by rw [hstate]; exact ih.1), ih.2⟩

theorem hidden_inQuotes (value : Text) : Hidden (.inside '"') (value.flatMap escape ++ ['"']) ∧
      (value.flatMap escape ++ ['"']).foldl Quoting.step (.inside '"') = .outside := by
  obtain ⟨hhidden, hstate⟩ := hidden_flatMap_escape value
  constructor
  · exact hhidden.append (by rw [hstate]; simp [Hidden])
  · simp [List.foldl_append, hstate, Quoting.step]

theorem Hidden.beforeComment {q : Quoting} (hhidden : Hidden q text) (rest : Text) :
    Source.beforeComment q (text ++ rest) =
      text ++ Source.beforeComment (text.foldl Quoting.step q) rest := by
  induction text generalizing q with
  | nil => rfl
  | cons c text ih =>
    have hq : (q == .outside) = false := by simpa using hhidden.1
    simp [Source.beforeComment, hq, ih hhidden.2]

theorem Hidden.balanceFrom {q : Quoting} (hhidden : Hidden q text) (rest : Text) :
    Source.balanceFrom q (text ++ rest) = Source.balanceFrom (text.foldl Quoting.step q) rest := by
  induction text generalizing q with
  | nil => rfl
  | cons c text ih =>
    have hq : (q == .outside) = false := by simpa using hhidden.1
    simp [Source.balanceFrom, hq, ih hhidden.2]

theorem Hidden.assignmentFrom {q : Quoting} (hhidden : Hidden q text) (rest : Text)
    (i : Nat) (before : Option Char) (depth : Nat) :
    ∃ j last, Source.assignmentFrom i before depth q (text ++ rest) =
      Source.assignmentFrom j last depth (text.foldl Quoting.step q) rest := by
  induction text generalizing q i before with
  | nil => exact ⟨i, before, rfl⟩
  | cons c text ih =>
    obtain ⟨j, last, hrest⟩ := ih hhidden.2 (i + 1) (some c)
    refine ⟨j, last, ?_⟩
    rw [List.cons_append, Source.assignmentFrom]
    · exact hrest
    · exact hhidden.1

/-! ## Scanning lexemes -/

theorem beforeComment_cons (hmark : Unmarked c) (rest : Text) :
    beforeComment .outside (c :: rest) = c :: beforeComment .outside rest := by
  simp [beforeComment, Quoting.step_outside hmark, hmark.2.2]

theorem beforeComment_unmarked (htext : ∀ c ∈ text, Unmarked c) (rest : Text) :
    beforeComment .outside (text ++ rest) = text ++ beforeComment .outside rest := by
  induction text with
  | nil => rfl
  | cons c text ih =>
    rw [List.cons_append, beforeComment_cons (htext c (by simp)),
      ih fun d hd => htext d (by simp [hd])]
    rfl

theorem balanceFrom_unmarked (htext : ∀ c ∈ text, Unmarked c ∧ bracketChange c = 0) (rest : Text) :
    balanceFrom .outside (text ++ rest) = balanceFrom .outside rest := by
  induction text with
  | nil => rfl
  | cons c text ih =>
    obtain ⟨hmark, hbracket⟩ := htext c (by simp)
    simp [balanceFrom, Quoting.step_outside hmark, hbracket, ih fun d hd => htext d (by simp [hd])]

theorem assignmentFrom_cons_of_deep (hmark : Unmarked c) (rest : Text) (i : Nat)
    (before : Option Char) (depth : Nat) :
    assignmentFrom i before (depth + 1) .outside (c :: rest) =
      assignmentFrom (i + 1) (some c) (deepen (depth + 1) c) .outside rest := by
  simp [assignmentFrom, Quoting.step_outside hmark]

theorem assignmentFrom_unmarked (htext : ∀ c ∈ text, Unmarked c ∧ bracketChange c = 0) (rest : Text)
    (i : Nat) (before : Option Char) (depth : Nat) :
    ∃ j last, assignmentFrom i before (depth + 1) .outside (text ++ rest) =
      assignmentFrom j last (depth + 1) .outside rest := by
  induction text generalizing i before with
  | nil => exact ⟨i, before, rfl⟩
  | cons c text ih =>
    obtain ⟨hmark, hbracket⟩ := htext c (by simp)
    have hdepth : deepen (depth + 1) c = depth + 1 := by simp [deepen, hbracket]
    rw [List.cons_append, assignmentFrom_cons_of_deep hmark, hdepth]
    exact ih (fun d hd => htext d (by simp [hd])) (i + 1) (some c)

theorem beforeComment_spelled (hwritable : lexeme.Writable) (rest : Text) :
    beforeComment .outside (lexeme.spelled ++ rest) =
      lexeme.spelled ++ beforeComment .outside rest := by
  by_cases hstring : ∃ value, lexeme = .string value
  · obtain ⟨value, rfl⟩ := hstring
    obtain ⟨hhidden, hstate⟩ := hidden_inQuotes value
    have hinside := hhidden.beforeComment rest
    rw [hstate] at hinside
    simpa [Lexeme.spelled, inQuotes, beforeComment, Quoting.step] using hinside
  · refine beforeComment_unmarked (fun c hc => ?_) rest
    exact (scan_spelled hwritable (by simpa using hstring) hc).1

theorem balanceFrom_spelled (hwritable : lexeme.Writable) (hbracket : lexeme.isBracket = false)
    (rest : Text) : balanceFrom .outside (lexeme.spelled ++ rest) = balanceFrom .outside rest := by
  by_cases hstring : ∃ value, lexeme = .string value
  · obtain ⟨value, rfl⟩ := hstring
    obtain ⟨hhidden, hstate⟩ := hidden_inQuotes value
    have hinside := hhidden.balanceFrom rest
    rw [hstate] at hinside
    simpa [Lexeme.spelled, inQuotes, balanceFrom, Quoting.step, bracketChange] using hinside
  · refine balanceFrom_unmarked (fun c hc => ?_) rest
    obtain ⟨hmark, hchange, -⟩ := scan_spelled hwritable (by simpa using hstring) hc
    exact ⟨hmark, hchange hbracket⟩

theorem assignmentFrom_spelled (hwritable : lexeme.Writable) (hbracket : lexeme.isBracket = false)
    (rest : Text) (i : Nat) (before : Option Char) (depth : Nat) : ∃ j last,
      assignmentFrom i before (depth + 1) .outside (lexeme.spelled ++ rest) =
        assignmentFrom j last (depth + 1) .outside rest := by
  by_cases hstring : ∃ value, lexeme = .string value
  · obtain ⟨value, rfl⟩ := hstring
    obtain ⟨hhidden, hstate⟩ := hidden_inQuotes value
    have hinside := hhidden.assignmentFrom rest (i + 1) (some '"') (depth + 1)
    rw [hstate] at hinside
    simpa [Lexeme.spelled, inQuotes, assignmentFrom, Quoting.step, deepen,
      bracketChange] using hinside
  · refine assignmentFrom_unmarked (fun c hc => ?_) rest i before depth
    obtain ⟨hmark, hchange, -⟩ := scan_spelled hwritable (by simpa using hstring) hc
    exact ⟨hmark, hchange hbracket⟩

/-! ## Balanced lexemes -/

/-- Writable lexemes whose brackets stand in pairs. -/
inductive Balanced : List Lexeme → Prop
  | nil : Balanced []
  | plain {lexeme : Lexeme} {rest : List Lexeme}
      (writable : lexeme.Writable) (flat : lexeme.isBracket = false)
      (balanced : Balanced rest) : Balanced (lexeme :: rest)
  | round {inner rest : List Lexeme} (within : Balanced inner) (balanced : Balanced rest) :
      Balanced (.symbol .openParen :: (inner ++ .symbol .closeParen :: rest))
  | square {inner rest : List Lexeme} (within : Balanced inner) (balanced : Balanced rest) :
      Balanced (.symbol .openBracket :: (inner ++ .symbol .closeBracket :: rest))

theorem Balanced.append {more : List Lexeme} (hbalanced : Balanced lexemes)
    (hmore : Balanced more) : Balanced (lexemes ++ more) := by
  induction hbalanced with
  | nil => exact hmore
  | plain hwritable hflat _ ih => exact .plain hwritable hflat ih
  | round hinner _ _ ih => simpa using Balanced.round hinner ih
  | square hinner _ _ ih => simpa using Balanced.square hinner ih

theorem Balanced.grouped (hbalanced : Balanced lexemes) : Balanced (grouped lexemes) :=
  .round hbalanced .nil

theorem Balanced.writable (hbalanced : Balanced lexemes) : ∀ lexeme ∈ lexemes, lexeme.Writable := by
  induction hbalanced with
  | nil => simp
  | plain hwritable _ _ ih => simpa using ⟨hwritable, ih⟩
  | round _ _ hinner hrest | square _ _ hinner hrest =>
    intro lexeme hmem
    simp only [List.mem_cons, List.mem_append] at hmem
    rcases hmem with rfl | hmem | rfl | hmem
    · trivial
    · exact hinner lexeme hmem
    · trivial
    · exact hrest lexeme hmem

@[simp] theorem spaced_nil : spaced [] = [] := rfl

@[simp] theorem spaced_cons (lexeme : Lexeme) (lexemes : List Lexeme) : spaced (lexeme :: lexemes) =
      ' ' :: (lexeme.spelled ++ spaced lexemes) := by
  simp [spaced]

@[simp] theorem spaced_append (lexemes more : List Lexeme) :
    spaced (lexemes ++ more) = spaced lexemes ++ spaced more := by
  simp [spaced]

theorem balanceFrom_cons (hmark : Unmarked c) (rest : Text) :
    balanceFrom .outside (c :: rest) = bracketChange c + balanceFrom .outside rest := by
  simp [balanceFrom, Quoting.step_outside hmark]

theorem Balanced.balanceFrom (hbalanced : Balanced lexemes) (rest : Text) :
    Source.balanceFrom .outside (spaced lexemes ++ rest) = Source.balanceFrom .outside rest := by
  induction hbalanced generalizing rest with
  | nil => rfl
  | plain hwritable hflat _ ih =>
    rw [spaced_cons, List.cons_append, List.append_assoc, balanceFrom_cons (by simp [Unmarked]),
      balanceFrom_spelled hwritable hflat, ih]
    simp [bracketChange]
  | round _ _ hinner hrest | square _ _ hinner hrest =>
    simp only [spaced_cons, spaced_append, Lexeme.spelled, Symbol.spelling, List.cons_append,
      List.nil_append, List.append_assoc]
    rw [balanceFrom_cons (by simp [Unmarked]), balanceFrom_cons (by simp [Unmarked]), hinner,
      balanceFrom_cons (by simp [Unmarked]), balanceFrom_cons (by simp [Unmarked]), hrest]
    simp [bracketChange]

theorem assignmentFrom_group (opening closing : Char) {inner : Text}
    (hopening : Unmarked opening ∧ bracketChange opening = 1)
    (hclosing : Unmarked closing ∧ bracketChange closing = -1)
    (hinner : ∀ rest i before depth, ∃ j last,
      assignmentFrom i before (depth + 1) .outside (inner ++ rest) =
        assignmentFrom j last (depth + 1) .outside rest) (rest : Text) (i : Nat)
    (before : Option Char) (depth : Nat) : ∃ j last, assignmentFrom i before (depth + 1) .outside
        (' ' :: opening :: (inner ++ ' ' :: closing :: rest)) =
      assignmentFrom j last (depth + 1) .outside rest := by
  have hblank : ∀ k : Nat, deepen k ' ' = k := by simp [deepen, bracketChange]
  have hdeeper : deepen (depth + 1) opening = depth + 1 + 1 := by
    simp only [deepen, hopening.2]
    omega
  have hback : deepen (depth + 1 + 1) closing = depth + 1 := by
    simp only [deepen, hclosing.2]
    omega
  obtain ⟨j, last, hpassed⟩ := hinner (' ' :: closing :: rest) (i + 1 + 1) (some opening)
    (depth + 1)
  refine ⟨j + 1 + 1, some closing, ?_⟩
  rw [assignmentFrom_cons_of_deep (by simp [Unmarked]), hblank,
    assignmentFrom_cons_of_deep hopening.1, hdeeper, hpassed,
    assignmentFrom_cons_of_deep (by simp [Unmarked]), hblank,
    assignmentFrom_cons_of_deep hclosing.1, hback]

theorem Balanced.assignmentFrom (hbalanced : Balanced lexemes) (rest : Text)
    (i : Nat) (before : Option Char) (depth : Nat) :
    ∃ j last, Source.assignmentFrom i before (depth + 1) .outside (spaced lexemes ++ rest) =
      Source.assignmentFrom j last (depth + 1) .outside rest := by
  induction hbalanced generalizing rest i before depth with
  | nil => exact ⟨i, before, rfl⟩
  | plain hwritable hflat _ ih =>
    rename_i lexeme lexemes _
    obtain ⟨j, last, hlexeme⟩ := assignmentFrom_spelled hwritable hflat
      (spaced lexemes ++ rest) (i + 1) (some ' ') depth
    obtain ⟨k, final, hrest⟩ := ih rest j last depth
    refine ⟨k, final, ?_⟩
    rw [spaced_cons, List.cons_append, List.append_assoc,
      assignmentFrom_cons_of_deep (by simp [Unmarked])]
    exact hlexeme.trans hrest
  | round _ _ hinner hrest =>
    rename_i inner lexemes _ _
    simp only [spaced_cons, spaced_append, Lexeme.spelled, Symbol.spelling, List.cons_append,
      List.nil_append, List.append_assoc]
    obtain ⟨j, last, hgroup⟩ := assignmentFrom_group '(' ')'
      ⟨by simp [Unmarked], rfl⟩ ⟨by simp [Unmarked], rfl⟩ hinner
      (spaced lexemes ++ rest) i before depth
    obtain ⟨k, final, hfinal⟩ := hrest rest j last depth
    exact ⟨k, final, hgroup.trans hfinal⟩
  | square _ _ hinner hrest =>
    rename_i inner lexemes _ _
    simp only [spaced_cons, spaced_append, Lexeme.spelled, Symbol.spelling, List.cons_append,
      List.nil_append, List.append_assoc]
    obtain ⟨j, last, hgroup⟩ := assignmentFrom_group '[' ']'
      ⟨by simp [Unmarked], rfl⟩ ⟨by simp [Unmarked], rfl⟩ hinner
      (spaced lexemes ++ rest) i before depth
    obtain ⟨k, final, hfinal⟩ := hrest rest j last depth
    exact ⟨k, final, hgroup.trans hfinal⟩

/-! ## Well-formed expressions are balanced -/

theorem Constant.balanced {value : Constant} (hwf : value.WellFormed) : Balanced value.lexemes := by
  cases value with
  | none => exact hwf.elim
  | float x => exact hwf.elim
  | bool b => cases b <;> exact .plain rfl rfl .nil
  | int n =>
    refine .plain ⟨Nat.toDigits_ne_nil, ?_⟩ rfl .nil
    intro c hc
    exact Nat.isDigit_of_mem_toDigits (by decide) (by decide) hc
  | text value => exact .plain hwf rfl .nil

theorem UnaryOp.writable {op : UnaryOp} (hop : ∀ spelling, op ≠ .other spelling) :
    op.lexeme.Writable ∧ op.lexeme.isBracket = false := by
  cases op with
  | other spelling => exact absurd rfl (hop spelling)
  | _ => simp [UnaryOp.lexeme, Lexeme.Writable, Lexeme.isBracket]

theorem BinaryOp.writable {op : BinaryOp} (hop : ∀ spelling, op ≠ .other spelling) :
    op.lexeme.Writable ∧ op.lexeme.isBracket = false := by
  cases op with
  | other spelling => exact absurd rfl (hop spelling)
  | _ => simp [BinaryOp.lexeme, Lexeme.Writable, Lexeme.isBracket]

theorem CompareOp.writable {op : CompareOp} (hop : ∀ spelling, op ≠ .other spelling) :
    op.lexeme.Writable ∧ op.lexeme.isBracket = false := by
  cases op with
  | other spelling => exact absurd rfl (hop spelling)
  | _ => simp [CompareOp.lexeme, Lexeme.Writable, Lexeme.isBracket]

theorem Balanced.operands {left right : List Lexeme}
    (hlexeme : lexeme.Writable ∧ lexeme.isBracket = false) (hleft : Balanced left)
    (hright : Balanced right) : Balanced (Source.grouped left ++ lexeme :: Source.grouped right) :=
  hleft.grouped.append (.plain hlexeme.1 hlexeme.2 hright.grouped)

mutual

theorem Expr.balanced (e : Expr) (hwf : e.WellFormed) : Balanced e.lexemes := by
  match e with
  | .constant value _ => exact Constant.balanced hwf
  | .name identifier _ => exact .plain hwf rfl .nil
  | .range _ _ _ => exact hwf.elim
  | .list items _ => exact .square (balancedItems items hwf) .nil
  | .attribute object name _ =>
    exact (object.balanced hwf.1).grouped.append (.plain trivial rfl (.plain hwf.2 rfl .nil))
  | .call callee args named _ =>
    obtain ⟨hcallee, hargs, hnamed, -⟩ := hwf
    exact (callee.balanced hcallee).grouped.append
      ((balancedAll args hargs).append (balancedNamed named hnamed)).grouped
  | .unary op operand _ =>
    have hop := UnaryOp.writable hwf.1
    exact .plain hop.1 hop.2 (operand.balanced hwf.2).grouped
  | .binary op left right _ =>
    exact .operands (BinaryOp.writable hwf.1) (left.balanced hwf.2.1) (right.balanced hwf.2.2)
  | .compare op left right _ =>
    exact .operands (CompareOp.writable hwf.1) (left.balanced hwf.2.1) (right.balanced hwf.2.2)
  | .misplaced _ => exact hwf.elim
termination_by sizeOf e

theorem balancedItems (items : List Expr) (hwf : ItemsWellFormed items) :
    Balanced (lexemesAll items) := by
  match items with
  | [] => exact .nil
  | item :: rest =>
    by_cases hrange : ∃ first last loc, item = .range first last loc
    · obtain ⟨first, last, loc, rfl⟩ := hrange
      obtain ⟨hfirst, hlast, hrest⟩ := hwf
      have hcolon : (Lexeme.symbol .colon).Writable ∧
          (Lexeme.symbol .colon).isBracket = false := ⟨trivial, rfl⟩
      exact (Balanced.operands hcolon (first.balanced hfirst) (last.balanced hlast)).append
        (.plain trivial rfl (balancedItems rest hrest))
    · have hitem : item.WellFormed ∧ ItemsWellFormed rest := by
        cases item <;> simp_all [ItemsWellFormed]
      exact (item.balanced hitem.1).append (.plain trivial rfl (balancedItems rest hitem.2))
termination_by sizeOf items

theorem balancedAll (args : List Expr) (hwf : AllWellFormed args) : Balanced (lexemesAll args) := by
  match args with
  | [] => exact .nil
  | arg :: rest => exact (arg.balanced hwf.1).append (.plain trivial rfl (balancedAll rest hwf.2))
termination_by sizeOf args

theorem balancedNamed (named : List (String × Expr))
    (hwf : NamedWellFormed named) : Balanced (lexemesNamed named) := by
  match named with
  | [] => exact .nil
  | (key, value) :: rest =>
    obtain ⟨hkey, hvalue, hrest⟩ := hwf
    exact .plain hkey rfl (.plain trivial rfl ((value.balanced hvalue).append
      (.plain trivial rfl (balancedNamed rest hrest))))
termination_by sizeOf named

end

/-! ## The text of an expression -/

def Expr.written (e : Expr) : Text :=
  '(' :: spaced (e.lexemes ++ [.symbol .closeParen])

theorem Expr.written_eq (e : Expr) : e.written = '(' :: (spaced e.lexemes ++ [' ', ')']) := by
  simp [Expr.written, Lexeme.spelled, Symbol.spelling]

theorem Expr.written_eq_append (e : Expr) : ∃ front, e.written = front ++ [')'] :=
  ⟨'(' :: (spaced e.lexemes ++ [' ']), by simp [Expr.written_eq]⟩

theorem isLineEnd_spelled (hwritable : lexeme.Writable)
    (hc : c ∈ lexeme.spelled) : isLineEnd c = false := by
  by_cases hstring : ∃ value, lexeme = .string value
  · obtain ⟨value, rfl⟩ := hstring
    simp only [Lexeme.spelled, inQuotes, List.mem_cons, List.mem_append, List.mem_flatMap,
      List.not_mem_nil, or_false] at hc
    rcases hc with rfl | ⟨d, hd, hc⟩ | rfl
    · decide
    · unfold escape at hc
      split at hc
      case h_5 hslash hquote hnewline hreturn =>
        obtain rfl := List.mem_singleton.mp hc
        by_contra hend
        rcases hwritable c hd (by simpa using hend) with rfl | rfl
        · exact hnewline rfl
        · exact hreturn rfl
      all_goals
        simp only [List.mem_cons, List.not_mem_nil, or_false] at hc
        rcases hc with rfl | rfl <;> decide
    · decide
  · exact (scan_spelled hwritable (by simpa using hstring) hc).2.2

theorem Balanced.oneLine (hbalanced : Balanced lexemes) :
    ∀ c ∈ spaced lexemes, isLineEnd c = false := by
  intro c hc
  obtain ⟨lexeme, hlexeme, hc⟩ := List.mem_flatMap.mp hc
  rcases List.mem_cons.mp hc with rfl | hc
  · decide
  · exact isLineEnd_spelled (hbalanced.writable lexeme hlexeme) hc

theorem beforeComment_spaced (hwritable : ∀ lexeme ∈ lexemes, lexeme.Writable) (rest : Text) :
    beforeComment .outside (spaced lexemes ++ rest) =
      spaced lexemes ++ beforeComment .outside rest := by
  induction lexemes with
  | nil => rfl
  | cons lexeme lexemes ih =>
    rw [spaced_cons, List.cons_append, List.append_assoc, beforeComment_cons (by simp [Unmarked]),
      beforeComment_spelled (hwritable lexeme (by simp)),
      ih fun other hother => hwritable other (by simp [hother])]
    simp

section Text

variable {e : Expr}

theorem Expr.WellFormed.oneLine (hwf : e.WellFormed) : ∀ c ∈ e.written, isLineEnd c = false := by
  intro c hc
  simp only [Expr.written_eq, List.mem_cons, List.mem_append, List.not_mem_nil, or_false] at hc
  rcases hc with rfl | hc | rfl | rfl
  · decide
  · exact (e.balanced hwf).oneLine c hc
  · decide
  · decide

theorem Expr.WellFormed.beforeComment (hwf : e.WellFormed) (rest : Text) :
    Source.beforeComment .outside (e.written ++ rest) =
      e.written ++ Source.beforeComment .outside rest := by
  have hmarks : ∀ c ∈ [' ', ')'], Unmarked c := by simp [Unmarked]
  rw [Expr.written_eq, List.cons_append, List.append_assoc, beforeComment_cons (by simp [Unmarked]),
    beforeComment_spaced (e.balanced hwf).writable, beforeComment_unmarked hmarks]
  simp

theorem Expr.WellFormed.balance (hwf : e.WellFormed) : Source.balance e.written = 0 := by
  rw [Source.balance, Expr.written_eq, balanceFrom_cons (by simp [Unmarked]),
    (e.balanced hwf).balanceFrom]
  decide

theorem Expr.WellFormed.findAssignment (hwf : e.WellFormed) :
    Source.findAssignment e.written = none := by
  obtain ⟨j, last, hpassed⟩ := (e.balanced hwf).assignmentFrom [' ', ')'] 1 (some '(') 0
  have hopen : assignmentFrom 0 none 0 .outside e.written = assignmentFrom 1 (some '(') 1 .outside
        (spaced e.lexemes ++ [' ', ')']) := by
    simp [Expr.written_eq, assignmentFrom, Quoting.step, deepen, bracketChange]
  rw [Source.findAssignment, hopen, hpassed]
  simp [assignmentFrom, Quoting.step, deepen, bracketChange]

theorem tokenize_openParen (column : Nat) (rest : Text) : tokenize column ('(' :: rest) =
      (tokenize (column + 1) rest).map (⟨.symbol .openParen, column⟩ :: ·) := by
  have hread : readLexeme '(' rest = .ok (.symbol .openParen, 0) := by
    unfold readLexeme
    cases rest <;> simp [Symbol.ofPair?, Symbol.ofChar?]
  have hspace : isSpace '(' = false := by decide
  rw [tokenize, hread]
  simp only [hspace, Bool.false_eq_true, if_false, Nat.add_zero, List.drop_zero]
  cases tokenize (column + 1) rest <;> rfl

theorem Expr.WellFormed.parseExpr (hwf : e.WellFormed) (origin : Location) :
    ∃ read, Source.parseExpr origin e.written = .ok read ∧ read.unplaced = e.unplaced := by
  have hgrouped := (e.balanced hwf).grouped
  obtain ⟨tokens, last, htokenize, hlexemes⟩ := tokenize_spaced (fun lexeme hlexeme =>
      hgrouped.writable lexeme (List.mem_cons_of_mem _ hlexeme)) 1
  have hmap : (⟨.symbol .openParen, 0⟩ :: tokens).map Token.lexeme = grouped e.lexemes := by
    rw [List.map_cons, hlexemes]
    rfl
  have hatom : Derives origin .atom (⟨.symbol .openParen, 0⟩ :: tokens) e :=
    .parentheses hmap fun inner hinner => e.derives hwf hinner
  obtain ⟨phrase, htokens, hexpr⟩ :
      Derives origin .disjunction (⟨.symbol .openParen, 0⟩ :: tokens) e := hatom.mono (by decide)
  have hmark : ∀ token ∈ (⟨.symbol .openParen, 0⟩ :: tokens : List Token),
      token.lexeme ≠ .finish := by
    intro token htoken hfinish
    have hwritable := hgrouped.writable token.lexeme (hmap ▸ List.mem_map_of_mem htoken)
    rw [hfinish] at hwritable
    exact hwritable
  refine ⟨phrase.expr origin, ?_, hexpr⟩
  rw [Source.parseExpr, Expr.written, tokenize_openParen, htokenize]
  exact (parseTokens_eq_ok_iff hmark).mpr ⟨phrase, htokens, rfl⟩

end Text

end Folio.Source

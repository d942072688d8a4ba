import Folio.Proofs.SourcePlaces

/-!
# The form of programs

A tree that is put together by hand may have operators that there are none of,
ranges outside lists and nodes that are neither expressions nor statements.
Running it may end in a complaint about its form.

A program is runnable if it has no such nodes.  Every program that is read from a
text is runnable, and no run of a runnable program ends in a complaint about its
form, whatever it works on and wherever it is stopped.
-/

namespace Folio

open Source

/-! ## Trees without misplaced nodes -/

namespace Source

def UnaryOp.isKnown : UnaryOp → Bool
  | .other _ => false
  | _ => true

def BinaryOp.isKnown : BinaryOp → Bool
  | .other _ => false
  | _ => true

def CompareOp.isKnown : CompareOp → Bool
  | .other _ => false
  | _ => true

mutual

def Expr.evaluable : Expr → Bool
  | .constant _ _ => true
  | .name _ _ => true
  | .range _ _ _ => false
  | .list items _ => evaluableItems items
  | .attribute object _ _ => object.evaluable
  | .call callee args named _ => callee.evaluable && (evaluableAll args && evaluableNamed named)
  | .unary op operand _ => op.isKnown && operand.evaluable
  | .binary op left right _ => op.isKnown && (left.evaluable && right.evaluable)
  | .compare op left right _ => op.isKnown && (left.evaluable && right.evaluable)
  | .misplaced _ => false

def evaluableItems : List Expr → Bool
  | [] => true
  | .range first last _ :: rest => first.evaluable && (last.evaluable && evaluableItems rest)
  | item :: rest => item.evaluable && evaluableItems rest

def evaluableAll : List Expr → Bool
  | [] => true
  | e :: rest => e.evaluable && evaluableAll rest

def evaluableNamed : List (String × Expr) → Bool
  | [] => true
  | (_, e) :: rest => e.evaluable && evaluableNamed rest

end

mutual

def Statement.runnable : Statement → Bool
  | .assign _ value _ => value.evaluable
  | .expr value _ => value.evaluable
  | .forEach _ source body _ => source.evaluable && runnableBody body
  | .choose branches otherwise _ => runnableBranches branches && runnableOtherwise otherwise
  | .misplaced _ => false

def runnableBody : List Statement → Bool
  | [] => true
  | statement :: rest => statement.runnable && runnableBody rest

def runnableBranches : List (Expr × List Statement) → Bool
  | [] => true
  | (condition, body) :: rest => condition.evaluable && (runnableBody body && runnableBranches rest)

def runnableOtherwise : Option (List Statement) → Bool
  | none => true
  | some body => runnableBody body

end

/-! ## Trees that are read -/

theorem Operator.evaluable_apply {level : Level} {lexeme : Lexeme} {op : Operator}
    (hspells : Spells level lexeme op) {left right : Expr} (hleft : left.evaluable = true)
    (hright : right.evaluable = true)
    (loc : Location) : (op.apply left right loc).evaluable = true := by
  cases hspells <;> simp [Operator.apply, Expr.evaluable, BinaryOp.isKnown, CompareOp.isKnown,
      hleft, hright]

theorem evaluableItems_cons {item : Expr} (hitem : item.evaluable = true) {rest : List Expr}
    (hrest : evaluableItems rest = true) : evaluableItems (item :: rest) = true := by
  cases item with
  | range first last loc => cases hitem
  | _ =>
    unfold evaluableItems
    rw [hitem, hrest]
    rfl

section Phrases

variable (origin : Location)

mutual

theorem Phrase.evaluable {level : Level} (phrase : Phrase level) :
    (phrase.expr origin).evaluable = true := by
  match phrase with
  | .row _ first rest => exact rest.evaluable first.evaluable
  | .deny _ _ operand | .negate _ operand => exact operand.evaluable
  | .affirm operand | .keepSign operand => exact operand.evaluable
  | .suffixed head suffixes => exact suffixes.evaluable head.evaluable
  | .number _ _ _ | .string _ _ | .yes _ _ | .no _ _ | .name _ _ => rfl
  | .parentheses _ inner _ => exact inner.evaluable
  | .emptyList _ _ => rfl
  | .list _ items _ => exact items.evaluable

theorem Links.evaluable {level : Level} (links : Links level) {left : Expr}
    (hleft : left.evaluable = true) : (links.expr origin left).evaluable = true := by
  match links with
  | .done => exact hleft
  | .more op token hspells operand rest =>
    exact rest.evaluable (Operator.evaluable_apply hspells hleft operand.evaluable _)

theorem Suffixes.evaluable (suffixes : Suffixes) {e : Expr}
    (he : e.evaluable = true) : (suffixes.expr origin e).evaluable = true := by
  match suffixes with
  | .done => exact he
  | .member _ _ _ rest => exact rest.evaluable he
  | .emptyCall _ _ rest =>
    refine rest.evaluable ?_
    rw [Expr.evaluable, he]
    rfl
  | .call _ arguments _ rest =>
    refine rest.evaluable ?_
    obtain ⟨hvalues, hnamed⟩ := arguments.evaluable
    rw [Expr.evaluable, he, hvalues, hnamed]
    rfl

theorem ArgumentList.evaluable {taken : List Text} (arguments : ArgumentList taken) :
    evaluableAll (arguments.values origin) = true ∧
      evaluableNamed (arguments.namedValues origin) = true := by
  match arguments with
  | .positional value rest =>
    obtain ⟨hvalues, hnamed⟩ := rest.evaluable
    refine ⟨?_, hnamed⟩
    rw [ArgumentList.values, evaluableAll, value.evaluable, hvalues]
    rfl
  | .named _ _ _ _ value rest =>
    obtain ⟨hvalues, hnamed⟩ := rest.evaluable
    refine ⟨hvalues, ?_⟩
    rw [ArgumentList.namedValues, evaluableNamed, value.evaluable, hnamed]
    rfl

theorem ArgumentTail.evaluable {taken : List Text} (tail : ArgumentTail taken) :
    evaluableAll (tail.values origin) = true ∧ evaluableNamed (tail.namedValues origin) = true := by
  match tail with
  | .done | .comma _ => exact ⟨rfl, rfl⟩
  | .more _ rest => exact rest.evaluable

theorem ItemList.evaluable (items : ItemList) : evaluableItems (items.exprs origin) = true := by
  match items with
  | .item value rest => exact evaluableItems_cons value.evaluable rest.evaluable
  | .range first _ last rest =>
    rw [ItemList.exprs, evaluableItems, first.evaluable, last.evaluable, rest.evaluable]
    rfl

theorem ItemTail.evaluable (tail : ItemTail) : evaluableItems (tail.exprs origin) = true := by
  match tail with
  | .done | .comma _ => rfl
  | .more _ rest => exact rest.evaluable

end

end Phrases

theorem Line.evaluable_of_parseExpr {line : Line} {text : Text} {column : Nat} {e : Expr}
    (hread : line.parseExpr text column = .ok e) : e.evaluable = true := by
  obtain ⟨tokens, last, htokens, phrase, rfl, rfl⟩ :=
    Source.parseExpr_eq_ok_iff.mp (Line.parseExpr_eq_ok_iff.mp hread)
  exact phrase.evaluable _

def Judgement.Runnable : Judgement → Prop
  | .block _ _ body _ => runnableBody body = true
  | .statement _ _ _ read _ => read.runnable = true
  | .child _ _ body _ => runnableBody body = true
  | .branches _ before _ read otherwise _ =>
    runnableOtherwise before = true →
      runnableBranches read = true ∧ runnableOtherwise otherwise = true

theorem Parses.runnable {judgement : Judgement} (hparses : Parses judgement) :
    judgement.Runnable := by
  induction hparses with
  | finish | dedent => rfl
  | cons _ _ _ _ ihFirst ihOthers => exact Bool.and_eq_true_iff.mpr ⟨ihFirst, ihOthers⟩
  | forEach hheader _ ihChild =>
    obtain ⟨source, -, hread⟩ := hheader.parts
    exact Bool.and_eq_true_iff.mpr ⟨Line.evaluable_of_parseExpr hread, ihChild⟩
  | choose hheader _ _ ihChild ihOthers =>
    obtain ⟨condition, -, hread⟩ := hheader.parts
    obtain ⟨hbranches, hotherwise⟩ := ihOthers rfl
    have hfirst := Line.evaluable_of_parseExpr hread
    simp only [Judgement.Runnable, Statement.runnable, runnableBranches, Bool.and_eq_true]
    exact ⟨⟨hfirst, ihChild, hbranches⟩, hotherwise⟩
  | simple _ hread =>
    rcases parseSimple_eq_ok_iff.mp hread with
      ⟨i, text, e, -, -, -, -, hexpr, rfl⟩ | ⟨text, e, -, -, hexpr, rfl⟩
    · exact Line.evaluable_of_parseExpr hexpr
    · exact Line.evaluable_of_parseExpr hexpr
  | child _ _ _ _ ihBlock => exact ihBlock
  | noLine | noBranch => exact fun hbefore => ⟨rfl, hbefore⟩
  | elif _ _ hheader _ _ ihChild ihOthers =>
    intro hbefore
    obtain ⟨condition, -, hread⟩ := hheader.parts
    obtain ⟨hbranches, hotherwise⟩ := ihOthers rfl
    have hfirst := Line.evaluable_of_parseExpr hread
    refine ⟨?_, hotherwise⟩
    simp only [runnableBranches, Bool.and_eq_true]
    exact ⟨hfirst, ihChild, hbranches⟩
  | otherwise _ _ _ _ _ ihChild ihOthers => exact fun _ => ihOthers ihChild

theorem runnable_of_parseProgram {source : Text} {program : Program}
    (hread : parseProgram source = .ok program) : runnableBody program = true :=
  (parseProgram_eq_ok_iff.mp hread).runnable

end Source

end Folio

import Folio.Source.Expr.Parser
import Mathlib.Tactic

/-!
# Phrases

The grammar of expressions, written down apart from its reader.  A phrase is a
derivation tree of a level: it says which tokens it is made of and which
expression it stands for.  The binary operators of a level are collected in a
row, so that a level has one shape, and the row is folded from the left.

Arguments and list items carry their commas.  The names given to arguments are
an index of the tree, which keeps arguments by position before those by name
and the names apart.
-/

namespace Folio.Source

variable {level : Level} {token : Token} {rest : List Token} {op : Operator}

def Level.joins : Level → Bool
  | .disjunction => true
  | .conjunction => true
  | .comparison => true
  | .sum => true
  | .product => true
  | _ => false

/-- The level of the operands that stand between the operators of a level. -/
def Level.operand : Level → Level
  | .disjunction => .conjunction
  | .conjunction => .negation
  | .comparison => .sum
  | .sum => .product
  | .product => .minus
  | level => level

/-- The operators of the levels and their spellings. -/
inductive Spells : Level → Lexeme → Operator → Prop
  | or (word : Text) : Spells .disjunction (.keyword .or word) (.binary .or)
  | and (word : Text) : Spells .conjunction (.keyword .and word) (.binary .and)
  | equal : Spells .comparison (.symbol .equal) (.compare .equal)
  | notEqual : Spells .comparison (.symbol .notEqual) (.compare .notEqual)
  | less : Spells .comparison (.symbol .less) (.compare .less)
  | lessEqual : Spells .comparison (.symbol .lessEqual) (.compare .lessEqual)
  | greater : Spells .comparison (.symbol .greater) (.compare .greater)
  | greaterEqual : Spells .comparison (.symbol .greaterEqual) (.compare .greaterEqual)
  | isIn (word : Text) : Spells .comparison (.keyword .isIn word) (.compare .isIn)
  | add : Spells .sum (.symbol .plus) (.binary .add)
  | subtract : Spells .sum (.symbol .minus) (.binary .subtract)
  | multiply : Spells .product (.symbol .star) (.binary .multiply)
  | divide : Spells .product (.symbol .slash) (.binary .divide)
  | remainder : Spells .product (.symbol .percent) (.binary .remainder)

/-- The digits of a number that is not too long. -/
structure IsNumeral (digits : Text) : Prop where
  nonempty : digits ≠ []
  decimal : ∀ c ∈ digits, Text.isDecimal c = true
  short : digits.length ≤ Decimal.maxDigits

def numeralValue (digits : Text) : Nat :=
  digits.foldl (fun n c => 10 * n + (Text.decimalValue? c).getD 0) 0

mutual

/-- The derivations of a level. -/
inductive Phrase : Level → Type
  | row {level : Level} (joins : level.joins = true)
      (first : Phrase level.operand) (rest : Links level) : Phrase level
  | deny (spelling : Text) (column : Nat) (operand : Phrase .negation) : Phrase .negation
  | affirm (operand : Phrase .comparison) : Phrase .negation
  | negate (column : Nat) (operand : Phrase .minus) : Phrase .minus
  | keepSign (operand : Phrase .suffix) : Phrase .minus
  | suffixed (head : Phrase .atom) (suffixes : Suffixes) : Phrase .suffix
  | number (digits : Text) (numeral : IsNumeral digits) (column : Nat) : Phrase .atom
  | string (value : Text) (column : Nat) : Phrase .atom
  | yes (spelling : Text) (column : Nat) : Phrase .atom
  | no (spelling : Text) (column : Nat) : Phrase .atom
  | name (spelling : Text) (column : Nat) : Phrase .atom
  | parentheses (opened : Nat) (inner : Phrase .disjunction) (closed : Nat) : Phrase .atom
  | emptyList (opened closed : Nat) : Phrase .atom
  | list (opened : Nat) (items : ItemList) (closed : Nat) : Phrase .atom

/-- The operators of a level with their right operands. -/
inductive Links : Level → Type
  | done {level : Level} : Links level
  | more {level : Level} (op : Operator) (token : Token) (spells : Spells level token.lexeme op)
      (operand : Phrase level.operand) (rest : Links level) : Links level

/-- Attributes and calls. -/
inductive Suffixes : Type
  | done : Suffixes
  | member (dot : Nat) (name : Text) (column : Nat) (rest : Suffixes) : Suffixes
  | emptyCall (opened closed : Nat) (rest : Suffixes) : Suffixes
  | call (opened : Nat) (arguments : ArgumentList []) (closed : Nat) (rest : Suffixes) : Suffixes

/-- Arguments after those that were given the names of the index. -/
inductive ArgumentList : List Text → Type
  | positional (value : Phrase .disjunction) (rest : ArgumentTail []) : ArgumentList []
  | named {taken : List Text} (key : Text) (column sign : Nat)
      (fresh : key ∉ taken) (value : Phrase .disjunction)
      (rest : ArgumentTail (key :: taken)) : ArgumentList taken

/-- What follows an argument; a comma may end the arguments. -/
inductive ArgumentTail : List Text → Type
  | done {taken : List Text} : ArgumentTail taken
  | comma {taken : List Text} (column : Nat) : ArgumentTail taken
  | more {taken : List Text} (column : Nat) (rest : ArgumentList taken) : ArgumentTail taken

/-- The items of a list that is not empty. -/
inductive ItemList : Type
  | item (value : Phrase .disjunction) (rest : ItemTail) : ItemList
  | range (first : Phrase .disjunction) (colon : Nat)
      (last : Phrase .disjunction) (rest : ItemTail) : ItemList

/-- What follows an item; a comma may end the items. -/
inductive ItemTail : Type
  | done : ItemTail
  | comma (column : Nat) : ItemTail
  | more (column : Nat) (rest : ItemList) : ItemTail

end

mutual

def Phrase.tokens : {level : Level} → Phrase level → List Token
  | _, .row _ first rest => first.tokens ++ rest.tokens
  | _, .deny spelling column operand => ⟨.keyword .not spelling, column⟩ :: operand.tokens
  | _, .affirm operand => operand.tokens
  | _, .negate column operand => ⟨.symbol .minus, column⟩ :: operand.tokens
  | _, .keepSign operand => operand.tokens
  | _, .suffixed head suffixes => head.tokens ++ suffixes.tokens
  | _, .number digits _ column => [⟨.number digits, column⟩]
  | _, .string value column => [⟨.string value, column⟩]
  | _, .yes spelling column => [⟨.keyword .yes spelling, column⟩]
  | _, .no spelling column => [⟨.keyword .no spelling, column⟩]
  | _, .name spelling column => [⟨.name spelling, column⟩]
  | _, .parentheses opened inner closed =>
    ⟨.symbol .openParen, opened⟩ ::
      (inner.tokens ++ [⟨.symbol .closeParen, closed⟩])
  | _, .emptyList opened closed => [⟨.symbol .openBracket, opened⟩, ⟨.symbol .closeBracket, closed⟩]
  | _, .list opened items closed =>
    ⟨.symbol .openBracket, opened⟩ ::
      (items.tokens ++ [⟨.symbol .closeBracket, closed⟩])

def Links.tokens : {level : Level} → Links level → List Token
  | _, .done => []
  | _, .more _ token _ operand rest => token :: (operand.tokens ++ rest.tokens)

def Suffixes.tokens : Suffixes → List Token
  | .done => []
  | .member dot name column rest => ⟨.symbol .dot, dot⟩ :: ⟨.name name, column⟩ :: rest.tokens
  | .emptyCall opened closed rest =>
    ⟨.symbol .openParen, opened⟩ :: ⟨.symbol .closeParen, closed⟩ :: rest.tokens
  | .call opened arguments closed rest =>
    ⟨.symbol .openParen, opened⟩ ::
      (arguments.tokens ++ ⟨.symbol .closeParen, closed⟩ :: rest.tokens)

def ArgumentList.tokens : {taken : List Text} → ArgumentList taken → List Token
  | _, .positional value rest => value.tokens ++ rest.tokens
  | _, .named key column sign _ value rest =>
    ⟨.name key, column⟩ :: ⟨.symbol .assign, sign⟩ ::
      (value.tokens ++ rest.tokens)

def ArgumentTail.tokens : {taken : List Text} → ArgumentTail taken → List Token
  | _, .done => []
  | _, .comma column => [⟨.symbol .comma, column⟩]
  | _, .more column rest => ⟨.symbol .comma, column⟩ :: rest.tokens

def ItemList.tokens : ItemList → List Token
  | .item value rest => value.tokens ++ rest.tokens
  | .range first colon last rest =>
    first.tokens ++ ⟨.symbol .colon, colon⟩ :: (last.tokens ++ rest.tokens)

def ItemTail.tokens : ItemTail → List Token
  | .done => []
  | .comma column => [⟨.symbol .comma, column⟩]
  | .more column rest => ⟨.symbol .comma, column⟩ :: rest.tokens

end

section Meaning

variable (origin : Location)

mutual

/-- The expression that a phrase stands for, if its text starts at `origin`. -/
def Phrase.expr : {level : Level} → Phrase level → Expr
  | _, .row _ first rest => rest.expr first.expr
  | _, .deny _ column operand => .unary .not operand.expr (some (origin.shift column))
  | _, .affirm operand => operand.expr
  | _, .negate column operand => .unary .negate operand.expr (some (origin.shift column))
  | _, .keepSign operand => operand.expr
  | _, .suffixed head suffixes => suffixes.expr head.expr
  | _, .number digits _ column =>
    .constant (.int (numeralValue digits)) (some (origin.shift column))
  | _, .string value column => .constant (.text value) (some (origin.shift column))
  | _, .yes _ column => .constant (.bool true) (some (origin.shift column))
  | _, .no _ column => .constant (.bool false) (some (origin.shift column))
  | _, .name spelling column => .name (String.ofList spelling) (some (origin.shift column))
  | _, .parentheses _ inner _ => inner.expr
  | _, .emptyList opened _ => .list [] (some (origin.shift opened))
  | _, .list opened items _ => .list items.exprs (some (origin.shift opened))

def Links.expr : {level : Level} → Links level → Expr → Expr
  | _, .done, left => left
  | _, .more op token _ operand rest, left =>
    rest.expr (op.apply left operand.expr (origin.shift token.column))

def Suffixes.expr : Suffixes → Expr → Expr
  | .done, e => e
  | .member dot name _ rest, e =>
    rest.expr (.attribute e (String.ofList name) (some (origin.shift dot)))
  | .emptyCall opened _ rest, e => rest.expr (.call e [] [] (some (origin.shift opened)))
  | .call opened arguments _ rest, e =>
    rest.expr
      (.call e arguments.values arguments.namedValues
        (some (origin.shift opened)))

def ArgumentList.values : {taken : List Text} → ArgumentList taken → List Expr
  | _, .positional value rest => value.expr :: rest.values
  | _, .named _ _ _ _ _ rest => rest.values

def ArgumentTail.values : {taken : List Text} → ArgumentTail taken → List Expr
  | _, .done => []
  | _, .comma _ => []
  | _, .more _ rest => rest.values

def ArgumentList.namedValues :
    {taken : List Text} → ArgumentList taken → List (String × Expr)
  | _, .positional _ rest => rest.namedValues
  | _, .named key _ _ _ value rest => (String.ofList key, value.expr) :: rest.namedValues

def ArgumentTail.namedValues :
    {taken : List Text} → ArgumentTail taken → List (String × Expr)
  | _, .done => []
  | _, .comma _ => []
  | _, .more _ rest => rest.namedValues

def ItemList.exprs : ItemList → List Expr
  | .item value rest => value.expr :: rest.exprs
  | .range first colon last rest =>
    .range first.expr last.expr (some (origin.shift colon)) :: rest.exprs

def ItemTail.exprs : ItemTail → List Expr
  | .done => []
  | .comma _ => []
  | .more _ rest => rest.exprs

end

end Meaning

/-! ## Levels and joints -/

def Level.rank : Level → Nat
  | .disjunction => 10
  | .conjunction => 9
  | .negation => 8
  | .comparison => 7
  | .sum => 6
  | .product => 5
  | .minus => 4
  | .suffix => 3
  | .atom => 2

def Lexeme.joint? : Lexeme → Option Level
  | .keyword .or _ => some .disjunction
  | .keyword .and _ => some .conjunction
  | .keyword .isIn _ => some .comparison
  | .symbol .equal => some .comparison
  | .symbol .notEqual => some .comparison
  | .symbol .less => some .comparison
  | .symbol .lessEqual => some .comparison
  | .symbol .greater => some .comparison
  | .symbol .greaterEqual => some .comparison
  | .symbol .plus => some .sum
  | .symbol .minus => some .sum
  | .symbol .star => some .product
  | .symbol .slash => some .product
  | .symbol .percent => some .product
  | .symbol .dot => some .suffix
  | .symbol .openParen => some .suffix
  | _ => none

/-- Tokens that do not lengthen a phrase of a level: the first of them belongs
to a looser level or to none. -/
def Level.Stops (level : Level) : List Token → Prop
  | [] => True
  | token :: _ => ∀ other, token.lexeme.joint? = some other → level.rank < other.rank

theorem Level.Stops.mono {tighter : Level} {tokens : List Token} (hstops : level.Stops tokens)
    (hrank : tighter.rank ≤ level.rank) : tighter.Stops tokens := by
  cases tokens with
  | nil => trivial
  | cons token rest =>
    intro other hjoint
    have := hstops other hjoint
    omega

theorem Level.stops_of_joint_none
    (hjoint : token.lexeme.joint? = none) : level.Stops (token :: rest) := by
  intro other hother
  simp [hjoint] at hother

theorem Level.rank_operand_lt (hjoins : level.joins = true) : level.operand.rank < level.rank := by
  cases level <;> simp_all [Level.joins, Level.operand, Level.rank]

theorem Spells.joint {level : Level} {lexeme : Lexeme} {op : Operator}
    (hspells : Spells level lexeme op) : lexeme.joint? = some level := by
  cases hspells <;> rfl

theorem Spells.joins {level : Level} {lexeme : Lexeme} {op : Operator}
    (hspells : Spells level lexeme op) : level.joins = true := by
  cases hspells <;> rfl

theorem Spells.eq {lexeme : Lexeme} {other : Operator} (hspells : Spells level lexeme op)
    (hother : Spells level lexeme other) : op = other := by
  cases hspells <;> cases hother <;> rfl

theorem Level.Stops.not_spells
    (hstops : level.Stops (token :: rest)) : ¬ Spells level token.lexeme op := by
  intro hspells
  have := hstops level hspells.joint
  omega

theorem Spells.stops_operand (hspells : Spells level token.lexeme op) :
    level.operand.Stops (token :: rest) := by
  intro other hother
  rw [hspells.joint] at hother
  cases hother
  exact Level.rank_operand_lt hspells.joins

/-! ## First tokens -/

def Level.opens (level : Level) : Lexeme → Bool
  | .number _ => true
  | .string _ => true
  | .name _ => true
  | .keyword .yes _ => true
  | .keyword .no _ => true
  | .keyword .not _ => decide (Level.negation.rank ≤ level.rank)
  | .symbol .minus => decide (Level.minus.rank ≤ level.rank)
  | .symbol .openParen => true
  | .symbol .openBracket => true
  | _ => false

theorem Level.opens_mono {tighter : Level} {lexeme : Lexeme} (hopens : tighter.opens lexeme = true)
    (hrank : tighter.rank ≤ level.rank) : level.opens lexeme = true := by
  unfold Level.opens at *
  split at hopens <;> simp_all <;> omega

def Phrase.head : {level : Level} → Phrase level → Token
  | _, .row _ first _ => first.head
  | _, .deny spelling column _ => ⟨.keyword .not spelling, column⟩
  | _, .affirm operand => operand.head
  | _, .negate column _ => ⟨.symbol .minus, column⟩
  | _, .keepSign operand => operand.head
  | _, .suffixed head _ => head.head
  | _, .number digits _ column => ⟨.number digits, column⟩
  | _, .string value column => ⟨.string value, column⟩
  | _, .yes spelling column => ⟨.keyword .yes spelling, column⟩
  | _, .no spelling column => ⟨.keyword .no spelling, column⟩
  | _, .name spelling column => ⟨.name spelling, column⟩
  | _, .parentheses opened _ _ => ⟨.symbol .openParen, opened⟩
  | _, .emptyList opened _ => ⟨.symbol .openBracket, opened⟩
  | _, .list opened _ _ => ⟨.symbol .openBracket, opened⟩

theorem Phrase.tokens_eq_head_cons {level : Level} (phrase : Phrase level) :
    ∃ tail, phrase.tokens = phrase.head :: tail := by
  match phrase with
  | .row _ first _ | .affirm first | .keepSign first | .suffixed first _ =>
    obtain ⟨tail, htail⟩ := first.tokens_eq_head_cons
    simp [Phrase.tokens, Phrase.head, htail]
  | .deny _ _ _ | .negate _ _ | .number _ _ _ | .string _ _ | .yes _ _ | .no _ _
  | .name _ _ | .parentheses _ _ _ | .emptyList _ _ | .list _ _ _ =>
    simp [Phrase.tokens, Phrase.head]

theorem Phrase.opens_head {level : Level} (phrase : Phrase level) :
    level.opens phrase.head.lexeme = true := by
  match phrase with
  | .row hjoins first _ => exact Level.opens_mono first.opens_head (Level.rank_operand_lt hjoins).le
  | .affirm operand | .keepSign operand | .suffixed operand _ =>
    exact Level.opens_mono operand.opens_head (by decide)
  | .deny _ _ _ | .negate _ _ | .number _ _ _ | .string _ _ | .yes _ _ | .no _ _
  | .name _ _ | .parentheses _ _ _ | .emptyList _ _ | .list _ _ _ => simp [Phrase.head, Level.opens]

def NotNext (symbol : Symbol) : List Token → Prop
  | [] => True
  | token :: _ => token.lexeme ≠ .symbol symbol

theorem Links.notAssign_append (links : Links level) (hrest : NotNext .assign rest) :
    NotNext .assign (links.tokens ++ rest) := by
  cases links with
  | done => simpa [Links.tokens] using hrest
  | more op token hspells operand more =>
    intro hassign
    have hjoint := hspells.joint
    simp [hassign, Lexeme.joint?] at hjoint

theorem Suffixes.notAssign_append (suffixes : Suffixes)
    (hrest : NotNext .assign rest) : NotNext .assign (suffixes.tokens ++ rest) := by
  cases suffixes <;> simp_all [Suffixes.tokens, NotNext]

theorem ArgumentTail.notAssign_append {taken : List Text} (tail : ArgumentTail taken)
    (hrest : NotNext .assign rest) : NotNext .assign (tail.tokens ++ rest) := by
  cases tail <;> simp_all [ArgumentTail.tokens, NotNext]

theorem Phrase.append_ne_named {level : Level} (phrase : Phrase level) {rest more : List Token}
    {key : Text} {column sign : Nat} (hrest : NotNext .assign rest) :
    phrase.tokens ++ rest ≠ ⟨.name key, column⟩ :: ⟨.symbol .assign, sign⟩ :: more := by
  match phrase with
  | .row _ first links =>
    rw [Phrase.tokens, List.append_assoc]
    exact first.append_ne_named (links.notAssign_append hrest)
  | .affirm operand | .keepSign operand => exact operand.append_ne_named hrest
  | .suffixed head suffixes =>
    rw [Phrase.tokens, List.append_assoc]
    exact head.append_ne_named (suffixes.notAssign_append hrest)
  | .name _ _ =>
    intro heq
    simp only [Phrase.tokens, List.cons_append, List.nil_append, List.cons.injEq] at heq
    rw [heq.2] at hrest
    exact hrest rfl
  | .deny _ _ _ | .negate _ _ | .number _ _ _ | .string _ _ | .yes _ _ | .no _ _
  | .parentheses _ _ _ | .emptyList _ _ | .list _ _ _ => simp [Phrase.tokens]

end Folio.Source

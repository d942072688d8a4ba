import Folio.Source.Expr
import Folio.Source.Token.Lexer

/-!
# Reading expressions

Expressions are read from tokens by precedence. From the loosest to the tightest the levels are
`or`, `and`, `not`, comparisons, sums, products, the minus sign, and attributes and calls; the
binary operators of a level group to the left. Every reader returns the tokens it leaves.
-/

namespace Folio.Source

inductive Level where
  | disjunction
  | conjunction
  | negation
  | comparison
  | sum
  | product
  | minus
  | suffix
  | atom
deriving DecidableEq, Repr

def Level.next : Level → Level
  | .disjunction => .conjunction
  | .conjunction => .negation
  | .negation => .comparison
  | .comparison => .sum
  | .sum => .product
  | .product => .minus
  | .minus => .suffix
  | .suffix => .atom
  | .atom => .atom

inductive Operator where
  | binary (op : BinaryOp)
  | compare (op : CompareOp)
deriving DecidableEq, Repr

def Operator.apply (op : Operator) (left right : Expr) (loc : Location) : Expr :=
  match op with
  | .binary op => .binary op left right (some loc)
  | .compare op => .compare op left right (some loc)

def Level.operator? : Level → Lexeme → Option Operator
  | .disjunction, .keyword .or _ => some (.binary .or)
  | .conjunction, .keyword .and _ => some (.binary .and)
  | .comparison, .symbol .equal => some (.compare .equal)
  | .comparison, .symbol .notEqual => some (.compare .notEqual)
  | .comparison, .symbol .less => some (.compare .less)
  | .comparison, .symbol .lessEqual => some (.compare .lessEqual)
  | .comparison, .symbol .greater => some (.compare .greater)
  | .comparison, .symbol .greaterEqual => some (.compare .greaterEqual)
  | .comparison, .keyword .isIn _ => some (.compare .isIn)
  | .sum, .symbol .plus => some (.binary .add)
  | .sum, .symbol .minus => some (.binary .subtract)
  | .product, .symbol .star => some (.binary .multiply)
  | .product, .symbol .slash => some (.binary .divide)
  | .product, .symbol .percent => some (.binary .remainder)
  | _, _ => none

def nextColumn : List Token → Nat
  | [] => 0
  | token :: _ => token.column

def refuse {α : Type} (reason : Refusal) (tokens : List Token) : Except Flaw α :=
  .error (.refused reason (nextColumn tokens))

def expect (symbol : Symbol) (reason : Refusal) : List Token → Except Flaw (List Token)
  | ⟨.symbol s, column⟩ :: rest =>
    if s == symbol then .ok rest else .error (.refused reason column)
  | tokens => refuse reason tokens

/-- Passes the comma after an item. Another item follows it unless the closing bracket does. -/
def passComma (closing : Symbol) : List Token → Bool × List Token
  | ⟨.symbol .comma, _⟩ :: token :: rest =>
    (token.lexeme != .symbol closing, token :: rest)
  | ⟨.symbol .comma, _⟩ :: [] => (true, [])
  | tokens => (false, tokens)

structure Arguments where
  positional : List Expr
  named : List (String × Expr)

mutual

/-- Reads an expression of a level. Of twelve nested calls at least one uses up a token, so twelve
times the number of tokens is enough fuel. -/
def parseLevel (origin : Location) :
    Nat → Level → List Token → Except Flaw (Expr × List Token)
  | 0, _, tokens => refuse .expectedExpression tokens
  | fuel + 1, .negation, tokens =>
    match tokens with
    | ⟨.keyword .not _, column⟩ :: rest => do
      let (operand, rest) ← parseLevel origin fuel .negation rest
      return (.unary .not operand (some (origin.shift column)), rest)
    | _ => parseLevel origin fuel .comparison tokens
  | fuel + 1, .minus, tokens =>
    match tokens with
    | ⟨.symbol .minus, column⟩ :: rest => do
      let (operand, rest) ← parseLevel origin fuel .minus rest
      return (.unary .negate operand (some (origin.shift column)), rest)
    | _ => parseLevel origin fuel .suffix tokens
  | fuel + 1, .suffix, tokens => do
    let (e, rest) ← parseLevel origin fuel .atom tokens
    parseSuffixes origin fuel e rest
  | fuel + 1, .atom, tokens => parseAtom origin fuel tokens
  | fuel + 1, level, tokens => do
    let (e, rest) ← parseLevel origin fuel level.next tokens
    parseOperators origin fuel level e rest

def parseOperators (origin : Location) :
    Nat → Level → Expr → List Token → Except Flaw (Expr × List Token)
  | 0, _, _, tokens => refuse .expectedExpression tokens
  | _ + 1, _, left, [] => .ok (left, [])
  | fuel + 1, level, left, token :: rest =>
    match level.operator? token.lexeme with
    | none => .ok (left, token :: rest)
    | some op => do
      let (right, rest) ← parseLevel origin fuel level.next rest
      parseOperators origin fuel level (op.apply left right (origin.shift token.column)) rest

def parseSuffixes (origin : Location) : Nat → Expr → List Token → Except Flaw (Expr × List Token)
  | 0, _, tokens => refuse .expectedExpression tokens
  | fuel + 1, e, tokens =>
    match tokens with
    | ⟨.symbol .dot, column⟩ :: rest =>
      match rest with
      | ⟨.name name, _⟩ :: rest =>
        parseSuffixes origin fuel
          (.attribute e (String.ofList name) (some (origin.shift column))) rest
      | _ => refuse .expectedAttribute rest
    | ⟨.symbol .openParen, column⟩ :: rest => do
      let (arguments, rest) ←
        match rest with
        | ⟨.symbol .closeParen, _⟩ :: _ => .ok (⟨[], []⟩, rest)
        | _ => parseArguments origin fuel ⟨[], []⟩ rest
      let rest ← expect .closeParen .expectedCallEnd rest
      parseSuffixes origin fuel
        (.call e arguments.positional.reverse arguments.named.reverse
          (some (origin.shift column))) rest
    | _ => .ok (e, tokens)

def parseArguments (origin : Location) :
    Nat → Arguments → List Token → Except Flaw (Arguments × List Token)
  | 0, _, tokens => refuse .expectedExpression tokens
  | fuel + 1, done, tokens => do
    let (done, rest) ← parseArgument origin fuel done tokens
    match passComma .closeParen rest with
    | (true, rest) => parseArguments origin fuel done rest
    | (false, rest) => .ok (done, rest)

def parseArgument (origin : Location) :
    Nat → Arguments → List Token → Except Flaw (Arguments × List Token)
  | 0, _, tokens => refuse .expectedExpression tokens
  | fuel + 1, done, tokens =>
    match tokens with
    | ⟨.name key, _⟩ :: ⟨.symbol .assign, _⟩ :: rest => do
      let (value, rest) ← parseLevel origin fuel .disjunction rest
      if done.named.any (·.1 == String.ofList key) then refuse (.duplicateKeyword key) rest
      else .ok ({ done with named := (String.ofList key, value) :: done.named }, rest)
    | _ =>
      if done.named.isEmpty then do
        let (value, rest) ← parseLevel origin fuel .disjunction tokens
        .ok ({ done with positional := value :: done.positional }, rest)
      else refuse .positionalAfterKeyword tokens

def parseAtom (origin : Location) : Nat → List Token → Except Flaw (Expr × List Token)
  | 0, tokens => refuse .expectedExpression tokens
  | fuel + 1, tokens =>
    match tokens with
    | ⟨.number digits, column⟩ :: rest =>
      match Decimal.readNumber digits with
      | .error flaw => .error (.number flaw)
      | .ok n => .ok (.constant (.int n) (some (origin.shift column)), rest)
    | ⟨.string value, column⟩ :: rest =>
      .ok (.constant (.text value) (some (origin.shift column)), rest)
    | ⟨.keyword .yes _, column⟩ :: rest =>
      .ok (.constant (.bool true) (some (origin.shift column)), rest)
    | ⟨.keyword .no _, column⟩ :: rest =>
      .ok (.constant (.bool false) (some (origin.shift column)), rest)
    | ⟨.name name, column⟩ :: rest =>
      .ok (.name (String.ofList name) (some (origin.shift column)), rest)
    | ⟨.symbol .openParen, _⟩ :: rest => do
      let (e, rest) ← parseLevel origin fuel .disjunction rest
      let rest ← expect .closeParen .expectedParenthesis rest
      return (e, rest)
    | ⟨.symbol .openBracket, column⟩ :: rest => do
      let (items, rest) ←
        match rest with
        | ⟨.symbol .closeBracket, _⟩ :: _ => .ok ([], rest)
        | _ => parseItems origin fuel [] rest
      let rest ← expect .closeBracket .expectedListEnd rest
      return (.list items.reverse (some (origin.shift column)), rest)
    | _ => refuse .expectedExpression tokens

/-- Reads the items of a list, in reverse, up to its closing bracket; a comma may end them. -/
def parseItems (origin : Location) :
    Nat → List Expr → List Token → Except Flaw (List Expr × List Token)
  | 0, _, tokens => refuse .expectedExpression tokens
  | fuel + 1, items, tokens => do
    let (item, rest) ← parseItem origin fuel tokens
    match passComma .closeBracket rest with
    | (true, rest) => parseItems origin fuel (item :: items) rest
    | (false, rest) => .ok (item :: items, rest)

def parseItem (origin : Location) : Nat → List Token → Except Flaw (Expr × List Token)
  | 0, tokens => refuse .expectedExpression tokens
  | fuel + 1, tokens => do
    let (item, rest) ← parseLevel origin fuel .disjunction tokens
    match rest with
    | ⟨.symbol .colon, column⟩ :: rest => do
      let (last, rest) ← parseLevel origin fuel .disjunction rest
      .ok (.range item last (some (origin.shift column)), rest)
    | _ => .ok (item, rest)

end

def parseTokens (origin : Location) (tokens : List Token) : Except Flaw Expr := do
  let (e, rest) ← parseLevel origin (12 * tokens.length + 12) .disjunction tokens
  match rest with
  | ⟨.finish, _⟩ :: _ => return e
  | token :: _ => .error (.refused (.unexpectedToken token.lexeme.shown) token.column)
  | [] => return e

def parseExpr (origin : Location) (text : Text) : Except Flaw Expr := do
  parseTokens origin (← tokenize 0 text)

end Folio.Source

import Folio.Text.Basic

/-!
# Tokens

A token is a number, quoted string, name, keyword or symbol with the offset at which it starts.
-/

namespace Folio.Source

inductive Keyword where
  | and
  | or
  | not
  | isIn
  | yes
  | no
deriving DecidableEq, Repr

inductive Symbol where
  | equal
  | notEqual
  | lessEqual
  | greaterEqual
  | plus
  | minus
  | star
  | slash
  | percent
  | openParen
  | closeParen
  | openBracket
  | closeBracket
  | comma
  | dot
  | colon
  | assign
  | less
  | greater
deriving DecidableEq, Repr

/-- What a token is. A keyword keeps the spelling it had, a string its contents. -/
inductive Lexeme where
  | number (digits : Text)
  | string (value : Text)
  | name (spelling : Text)
  | keyword (word : Keyword) (spelling : Text)
  | symbol (symbol : Symbol)
  | finish
deriving DecidableEq, Repr

structure Token where
  lexeme : Lexeme
  column : Nat
deriving DecidableEq, Repr

def Keyword.ofSpelling? (word : Text) : Option Keyword :=
  match String.ofList word with
  | "and" => some .and
  | "or" => some .or
  | "not" => some .not
  | "in" => some .isIn
  | "True" => some .yes
  | "true" => some .yes
  | "False" => some .no
  | "false" => some .no
  | _ => none

def Keyword.kind : Keyword → String
  | .and => "AND"
  | .or => "OR"
  | .not => "NOT"
  | .isIn => "IN"
  | .yes => "TRUE"
  | .no => "FALSE"

def Symbol.spelling : Symbol → Text
  | .equal => ['=', '=']
  | .notEqual => ['!', '=']
  | .lessEqual => ['<', '=']
  | .greaterEqual => ['>', '=']
  | .plus => ['+']
  | .minus => ['-']
  | .star => ['*']
  | .slash => ['/']
  | .percent => ['%']
  | .openParen => ['(']
  | .closeParen => [')']
  | .openBracket => ['[']
  | .closeBracket => [']']
  | .comma => [',']
  | .dot => ['.']
  | .colon => [':']
  | .assign => ['=']
  | .less => ['<']
  | .greater => ['>']

def Symbol.kind : Symbol → String
  | .equal => "EQEQ"
  | .notEqual => "NEQ"
  | .lessEqual => "LTE"
  | .greaterEqual => "GTE"
  | .plus => "PLUS"
  | .minus => "MINUS"
  | .star => "STAR"
  | .slash => "SLASH"
  | .percent => "PERCENT"
  | .openParen => "LPAREN"
  | .closeParen => "RPAREN"
  | .openBracket => "LBRACK"
  | .closeBracket => "RBRACK"
  | .comma => "COMMA"
  | .dot => "DOT"
  | .colon => "COLON"
  | .assign => "EQ"
  | .less => "LT"
  | .greater => "GT"

def Lexeme.kind : Lexeme → String
  | .number _ => "NUMBER"
  | .string _ => "STRING"
  | .name _ => "NAME"
  | .keyword word _ => word.kind
  | .symbol s => s.kind
  | .finish => "EOF"

def Lexeme.value : Lexeme → Text
  | .number digits => digits
  | .string value => value
  | .name spelling => spelling
  | .keyword _ spelling => spelling
  | .symbol s => s.spelling
  | .finish => []

def Lexeme.shown (l : Lexeme) : Text :=
  if l.value.isEmpty then l.kind.toList else l.value

def Symbol.ofPair? : Char → Char → Option Symbol
  | '=', '=' => some .equal
  | '!', '=' => some .notEqual
  | '<', '=' => some .lessEqual
  | '>', '=' => some .greaterEqual
  | _, _ => none

def Symbol.ofChar? : Char → Option Symbol
  | '+' => some .plus
  | '-' => some .minus
  | '*' => some .star
  | '/' => some .slash
  | '%' => some .percent
  | '(' => some .openParen
  | ')' => some .closeParen
  | '[' => some .openBracket
  | ']' => some .closeBracket
  | ',' => some .comma
  | '.' => some .dot
  | ':' => some .colon
  | '=' => some .assign
  | '<' => some .less
  | '>' => some .greater
  | _ => none

end Folio.Source

import Folio.Decimal.Integer
import Folio.Source.Location

/-!
# Source text that is refused

The reasons for which source text is no program, with their wording. Digits that write no number are
reported without a place.
-/

namespace Folio.Source

inductive Refusal where
  | unexpectedCharacter (c : Char)
  | unterminatedString
  | unterminatedEscape
  | unexpectedToken (shown : Text)
  | expectedExpression
  | expectedAttribute
  | expectedCallEnd
  | expectedParenthesis
  | expectedListEnd
  | duplicateKeyword (name : Text)
  | positionalAfterKeyword
  | tabIndentation
  | unexpectedIndentation
  | elifWithoutIf
  | elseWithoutIf
  | elifAfterElse
  | secondElse
  | assignmentTarget
  | assignmentValue
  | unterminatedExpression
  | forHeader
  | ifHeader
  | elifHeader
  | expectedBlock
deriving DecidableEq, Repr

def Refusal.message : Refusal → Text
  | .unexpectedCharacter c => "Unexpected character '".toList ++ [c, '\'']
  | .unterminatedString => "Unterminated string literal".toList
  | .unterminatedEscape => "Unterminated escape in string literal".toList
  | .unexpectedToken shown => "Unexpected token '".toList ++ shown ++ ['\'']
  | .expectedExpression => "Expected expression".toList
  | .expectedAttribute => "Expected attribute name after '.'".toList
  | .expectedCallEnd => "Expected ')' to close function call".toList
  | .expectedParenthesis => "Expected ')' after expression".toList
  | .expectedListEnd => "Expected ']' to close list".toList
  | .duplicateKeyword name => "Duplicate keyword argument '".toList ++ name ++ ['\'']
  | .positionalAfterKeyword => "Positional arguments cannot follow keyword arguments".toList
  | .tabIndentation => "Tabs are not supported for indentation".toList
  | .unexpectedIndentation => "Unexpected indentation".toList
  | .elifWithoutIf => "'elif' without matching 'if'".toList
  | .elseWithoutIf => "'else' without matching 'if'".toList
  | .elifAfterElse => "'elif' cannot appear after 'else'".toList
  | .secondElse => "Only one else block is allowed".toList
  | .assignmentTarget =>
    "Invalid assignment target. Only simple variable names are allowed".toList
  | .assignmentValue => "Missing expression on right side of assignment".toList
  | .unterminatedExpression =>
    "Unterminated expression. Missing closing bracket/parenthesis".toList
  | .forHeader => "Invalid for-loop syntax. Use: for item in iterable:".toList
  | .ifHeader => "Invalid if syntax. Use: if condition:".toList
  | .elifHeader => "Invalid elif syntax. Use: elif condition:".toList
  | .expectedBlock => "Expected an indented block".toList

/-- Why a piece of source text is refused; a place is an offset in the piece. -/
inductive Flaw where
  | refused (reason : Refusal) (offset : Nat)
  | number (flaw : Decimal.NumberFlaw)
deriving DecidableEq, Repr

inductive SourceError where
  | refused (reason : Refusal) (location : Location) (sourceLine : Text)
  | number (flaw : Decimal.NumberFlaw)
deriving DecidableEq, Repr

def Flaw.locate (origin : Location) (sourceLine : Text) : Flaw → SourceError
  | .refused reason offset => .refused reason (origin.shift offset) sourceLine
  | .number flaw => .number flaw

end Folio.Source

import Folio.Source.Refusal
import Folio.Source.Token

/-!
# Reading tokens

A text is cut into tokens from the left; blanks separate tokens and are dropped. A symbol of two
characters is preferred to one of one character, and numbers and words are as long as possible.
-/

namespace Folio.Source

def isWordChar (c : Char) : Bool :=
  Text.isAlphanumeric c || c == '_'

def unescape : Char → Char
  | 'n' => '\n'
  | 't' => '\t'
  | 'r' => '\r'
  | c => c

/-- Reads a string up to its closing quote, which is no backslash: its contents and the number of
characters used. -/
def readString (quote : Char) (value : Text) (used : Nat) : Text → Except Refusal (Text × Nat)
  | [] => .error .unterminatedString
  | '\\' :: [] => .error .unterminatedEscape
  | '\\' :: c :: rest => readString quote (unescape c :: value) (used + 2) rest
  | c :: rest =>
    if c == quote then .ok (value.reverse, used + 1)
    else readString quote (c :: value) (used + 1) rest

def wordLexeme (word : Text) : Lexeme :=
  match Keyword.ofSpelling? word with
  | some k => .keyword k word
  | none => .name word

/-- Reads the lexeme that starts with `c`: the lexeme, and how many characters of the rest belong
to it. -/
def readLexeme (c : Char) (rest : Text) : Except Refusal (Lexeme × Nat) :=
  match rest.head?.bind (Symbol.ofPair? c) with
  | some symbol => .ok (.symbol symbol, 1)
  | none =>
    match Symbol.ofChar? c with
    | some symbol => .ok (.symbol symbol, 0)
    | none =>
      if Text.isDigit c then
        let more := rest.takeWhile Text.isDigit
        .ok (.number (c :: more), more.length)
      else if c == '\'' || c == '"' then
        (readString c [] 0 rest).map fun (value, used) => (.string value, used)
      else if Text.isLetter c || c == '_' then
        let more := rest.takeWhile isWordChar
        .ok (wordLexeme (c :: more), more.length)
      else .error (.unexpectedCharacter c)

/-- Cuts a text that starts at `column` into tokens, the last of which marks the end. -/
def tokenize (column : Nat) : Text → Except Flaw (List Token)
  | [] => .ok [⟨.finish, column⟩]
  | c :: rest =>
    if Text.isSpace c then tokenize (column + 1) rest
    else
      match readLexeme c rest with
      | .error reason => .error (.refused reason column)
      | .ok (lexeme, more) =>
        match tokenize (column + 1 + more) (rest.drop more) with
        | .error flaw => .error flaw
        | .ok tokens => .ok (⟨lexeme, column⟩ :: tokens)
termination_by t => t.length

end Folio.Source

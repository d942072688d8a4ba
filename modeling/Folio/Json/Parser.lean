import Folio.Decimal.Integer
import Folio.Json

/-!
# Reading Json

A text is read as one value with blanks around it; `NaN`, `Infinity` and `-Infinity` are numbers. A
flaw is reported with its line, column and offset.
-/

namespace Folio.Json

inductive FlawKind where
  | value
  | delimiter (c : Char)
  | propertyName
  | unterminated
  | control
  | escape
  | unicodeEscape
  | extra
  | byteOrderMark
deriving DecidableEq, Repr

def FlawKind.message : FlawKind → String
  | .value => "Expecting value"
  | .delimiter c => "Expecting '" ++ String.singleton c ++ "' delimiter"
  | .propertyName => "Expecting property name enclosed in double quotes"
  | .unterminated => "Unterminated string starting at"
  | .control => "Invalid control character at"
  | .escape => "Invalid \\escape"
  | .unicodeEscape => "Invalid \\uXXXX escape"
  | .extra => "Extra data"
  | .byteOrderMark => "Unexpected UTF-8 BOM (decode using utf-8-sig)"

inductive ReadError where
  | flaw (kind : FlawKind) (offset : Nat)
  | number (flaw : Decimal.NumberFlaw)
deriving DecidableEq, Repr

def placeOf (t : Text) (offset : Nat) : Nat × Nat :=
  (t.take offset).foldl (fun (line, column) c =>
    if c == '\n' then (line + 1, 1) else (line, column + 1)) (1, 1)

def ReadError.message (t : Text) : ReadError → Text
  | .flaw kind offset =>
    let (line, column) := placeOf t offset
    kind.message.toList ++ ": line ".toList ++ Text.ofNat line ++ " column ".toList
      ++ Text.ofNat column ++ " (char ".toList ++ Text.ofNat offset ++ [')']
  | .number e => e.message

structure Cursor where
  offset : Nat
  rest : Text

def Cursor.isBlank (c : Char) : Bool :=
  c == ' ' || c == '\t' || c == '\n' || c == '\r'

def Cursor.afterBlanks (offset : Nat) : Text → Cursor
  | [] => ⟨offset, []⟩
  | c :: rest => if isBlank c then afterBlanks (offset + 1) rest else ⟨offset, c :: rest⟩

def Cursor.skip (cursor : Cursor) : Cursor :=
  afterBlanks cursor.offset cursor.rest

def Cursor.drop (cursor : Cursor) (n : Nat) : Cursor :=
  ⟨cursor.offset + n, cursor.rest.drop n⟩

abbrev Reading (α : Type) := Except ReadError (α × Cursor)

/-- The number that four hexadecimal digits at the start of a text write; one more character has to
follow them. -/
def unit? : Text → Option Nat
  | a :: b :: c :: d :: _ :: _ =>
    if [a, b, c, d].all fun x => x.isDigit || ('a' ≤ x ∧ x ≤ 'f') || ('A' ≤ x ∧ x ≤ 'F') then
      some (Text.hexValue [a, b, c, d])
    else none
  | _ => none

def plainEscape? : Char → Option Char
  | '"' => some '"'
  | '\\' => some '\\'
  | '/' => some '/'
  | 'b' => some (Char.ofNat 8)
  | 'f' => some (Char.ofNat 12)
  | 'n' => some '\n'
  | 'r' => some '\r'
  | 't' => some '\t'
  | _ => none

/-- The character of a unit, or of the pair of units that start a text. A unit that needs a partner
and has none becomes the replacement character. -/
def unitChar (unit : Nat) (after : Text) : Char × Nat :=
  if 0xD800 ≤ unit && unit < 0xDC00 then
    match after with
    | '\\' :: 'u' :: more =>
      match unit? more with
      | some low =>
        if 0xDC00 ≤ low && low < 0xE000 then
          (Char.ofNat (0x10000 + (unit - 0xD800) * 0x400 + (low - 0xDC00)), 6)
        else ('\uFFFD', 0)
      | none => ('\uFFFD', 0)
    | _ => ('\uFFFD', 0)
  else if 0xDC00 ≤ unit && unit < 0xE000 then ('\uFFFD', 0)
  else (Char.ofNat unit, 0)

/-- Reads a string after its opening quote, which stands at `start`. The first number counts
characters that belong to an escape that has been read. -/
def readString (start : Nat) (skip : Nat) (offset : Nat) (done : Text) : Text → Reading Text
  | [] => .error (.flaw .unterminated start)
  | c :: rest =>
    match skip with
    | skip + 1 => readString start skip (offset + 1) done rest
    | 0 =>
      if c == '"' then .ok (done.reverse, ⟨offset + 1, rest⟩)
      else if c == '\\' then
        match rest with
        | [] => .error (.flaw .unterminated start)
        | e :: after =>
          if e == 'u' then
            match unit? after with
            | none => .error (.flaw .unicodeEscape (offset + 1))
            | some unit =>
              let (char, more) := unitChar unit (after.drop 4)
              readString start (5 + more) (offset + 1) (char :: done) rest
          else
            match plainEscape? e with
            | none => .error (.flaw .escape offset)
            | some char => readString start 1 (offset + 1) (char :: done) rest
      else if c.toNat < 32 then .error (.flaw .control offset)
      else readString start 0 (offset + 1) (c :: done) rest

def exponentOf : Text → Option (Int × Nat)
  | [] => none
  | c :: rest =>
    if c == 'e' || c == 'E' then
      let (negative, after) := Decimal.takeSign rest
      let digits := after.takeWhile Char.isDigit
      let signs := if rest.head? == some '-' || rest.head? == some '+' then 1 else 0
      if digits.isEmpty then none
      else
        let n : Int := Decimal.digitsValue digits
        some (if negative then -n else n, 1 + signs + digits.length)
    else none

def wholeOf (t : Text) : Text :=
  if t.head? == some '0' then ['0'] else t.takeWhile Char.isDigit

def fractionOf : Text → Text
  | '.' :: rest => rest.takeWhile Char.isDigit
  | _ => []

def readMagnitude (cursor : Cursor) (negative : Bool) (body : Text) : Reading Json :=
  let whole := wholeOf body
  if whole.isEmpty then .error (.flaw .value cursor.offset)
  else
    let rest := body.drop whole.length
    let fraction := fractionOf rest
    let point := if fraction.isEmpty then 0 else fraction.length + 1
    let exponent := exponentOf (rest.drop point)
    let width := (if negative then 1 else 0) + whole.length + point
      + (exponent.map (·.2)).getD 0
    if fraction.isEmpty && exponent.isNone then
      if Decimal.maxDigits < whole.length then .error (.number (.tooLong whole.length))
      else
        let n : Int := Decimal.digitsValue whole
        .ok (.int (if negative then -n else n), cursor.drop width)
    else
      .ok (.float (Decimal.ofDigits negative whole fraction ((exponent.map (·.1)).getD 0)),
        cursor.drop width)

def readNumber (cursor : Cursor) : Reading Json :=
  match cursor.rest with
  | '-' :: body => readMagnitude cursor true body
  | body => readMagnitude cursor false body

def literals : List (Text × Json) :=
  [("null".toList, .null), ("true".toList, .bool true), ("false".toList, .bool false),
   ("NaN".toList, .float (0.0 / 0.0)), ("Infinity".toList, .float (1.0 / 0.0)),
   ("-Infinity".toList, .float (-1.0 / 0.0))]

mutual

/-- Reads a value at a cursor that stands on no blank. Of two nested calls at least one uses up a
character. -/
def readValue : Nat → Cursor → Reading Json
  | 0, cursor => .error (.flaw .value cursor.offset)
  | fuel + 1, cursor =>
    match cursor.rest with
    | [] => .error (.flaw .value cursor.offset)
    | '"' :: rest =>
      match readString cursor.offset 0 (cursor.offset + 1) [] rest with
      | .ok (t, cursor) => .ok (.string t, cursor)
      | .error e => .error e
    | '[' :: _ =>
      let cursor := (cursor.drop 1).skip
      if cursor.rest.head? == some ']' then .ok (.array [], cursor.drop 1)
      else readItems fuel [] cursor
    | '{' :: _ =>
      let cursor := (cursor.drop 1).skip
      if cursor.rest.head? == some '}' then .ok (.object [], cursor.drop 1)
      else readFields fuel [] cursor
    | _ =>
      match literals.find? fun (word, _) => word.isPrefixOf cursor.rest with
      | some (word, value) => .ok (value, cursor.drop word.length)
      | none => readNumber cursor

def readItems : Nat → List Json → Cursor → Reading Json
  | 0, _, cursor => .error (.flaw .value cursor.offset)
  | fuel + 1, items, cursor =>
    match readValue fuel cursor with
    | .error e => .error e
    | .ok (item, cursor) =>
      let cursor := cursor.skip
      match cursor.rest.head? with
      | some ']' => .ok (.array (item :: items).reverse, cursor.drop 1)
      | some ',' => readItems fuel (item :: items) (cursor.drop 1).skip
      | _ => .error (.flaw (.delimiter ',') cursor.offset)

def readFields : Nat → List (Text × Json) → Cursor → Reading Json
  | 0, _, cursor => .error (.flaw .value cursor.offset)
  | fuel + 1, fields, cursor =>
    match cursor.rest with
    | '"' :: rest =>
      match readString cursor.offset 0 (cursor.offset + 1) [] rest with
      | .error e => .error e
      | .ok (key, cursor) =>
        let cursor := cursor.skip
        if cursor.rest.head? != some ':' then .error (.flaw (.delimiter ':') cursor.offset)
        else
          match readValue fuel (cursor.drop 1).skip with
          | .error e => .error e
          | .ok (value, cursor) =>
            let cursor := cursor.skip
            match cursor.rest.head? with
            | some '}' => .ok (ofPairs ((key, value) :: fields).reverse, cursor.drop 1)
            | some ',' => readFields fuel ((key, value) :: fields) (cursor.drop 1).skip
            | _ => .error (.flaw (.delimiter ',') cursor.offset)
    | _ => .error (.flaw .propertyName cursor.offset)

end

def parse (t : Text) : Except ReadError Json :=
  if t.head? == some '\uFEFF' then .error (.flaw .byteOrderMark 0)
  else
    match readValue (2 * t.length + 2) (Cursor.skip ⟨0, t⟩) with
    | .error e => .error e
    | .ok (value, cursor) =>
      let cursor := cursor.skip
      if cursor.rest.isEmpty then .ok value else .error (.flaw .extra cursor.offset)

end Folio.Json

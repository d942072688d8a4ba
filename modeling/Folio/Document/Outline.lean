import Folio.Decimal.Integer
import Folio.Numeral
import Folio.Text.Case

/-!
# Outlines

Headings of plain text are recognised in the lines of a table of contents: a section number, a title
and a page number, with dots or a blank before the page; or a title, dots and a page number.
-/

namespace Folio

structure Heading where
  level : Nat
  title : Text
  page : Option Numeral
deriving DecidableEq, Repr

def Heading.line (h : Heading) : Text :=
  List.replicate (2 * (h.level - 1)) ' ' ++ h.title
    ++ (match h.page with
      | some page => " (p.".toList ++ page.text ++ [')']
      | none => [])

def outlineText (headings : List Heading) : Text :=
  Text.joinWith ['\n'] (headings.map Heading.line)

namespace Contents

/-- The page number after dots: at least two dots, blanks, and digits up to the end. -/
def afterDots? (t : Text) : Option Text :=
  let dots := t.takeWhile (· == '.')
  let digits := (t.drop dots.length).dropWhile Text.isSpace
  if 2 ≤ dots.length && !digits.isEmpty && digits.all Text.isDecimal then some digits else none

def afterBlanks? : Text → Option Text
  | [] => none
  | c :: rest =>
    let digits := rest.dropWhile Text.isSpace
    if Text.isSpace c && !digits.isEmpty && digits.all Text.isDecimal then some digits else none

/-- The shortest title at the start of a text, of at least one character, after which the page
number follows; what has been passed of the title comes last first. -/
def shortest? (tail? : Text → Option Text) (passed : Text) : Text → Option (Text × Text)
  | [] => none
  | c :: rest =>
    match tail? rest with
    | some page => some ((c :: passed).reverse, page)
    | none => shortest? tail? (c :: passed) rest

/-- The title and the page number after a section number: as many blanks as possible are passed
first, and the title is as short as possible. -/
def afterSection? (tail? : Text → Option Text) (t : Text) : Option (Text × Text) :=
  let blanks := (t.takeWhile Text.isSpace).length
  (List.range blanks).findSome? fun i => shortest? tail? [] (t.drop (blanks - i))

/-- Splits a section number off: runs of digits with single dots between them. -/
def section? : Nat → Text → Option (Text × Text)
  | 0, _ => none
  | fuel + 1, t =>
    let digits := t.takeWhile Text.isDecimal
    let rest := t.drop digits.length
    if digits.isEmpty then none
    else
      match rest with
      | '.' :: after =>
        match section? fuel after with
        | some (more, rest) => some (digits ++ '.' :: more, rest)
        | none => some (digits, rest)
      | _ => some (digits, rest)

def numbered? (line : Text) : Option (Text × Text × Text) := do
  let (number, rest) ← section? line.length line
  let (title, page) ← (afterSection? afterDots? rest).or (afterSection? afterBlanks? rest)
  return (number, title, page)

def pageOf (digits : Text) : Except Decimal.NumberFlaw Numeral :=
  (Decimal.readNumber digits).map fun n => .number n

def leastLength : Nat := 8

/-- The heading that a line without blanks around it writes, if it writes one. -/
def heading? (line : Text) : Except Decimal.NumberFlaw (Option Heading) :=
  if line.length < leastLength then .ok none
  else
    match numbered? line with
    | some (number, title, digits) => do
      let page ← pageOf digits
      let title := Text.strip (number ++ ' ' :: Text.strip title)
      return some ⟨List.count '.' number + 1, title, some page⟩
    | none =>
      match shortest? afterDots? [] line with
      | some (title, digits) => do
        let page ← pageOf digits
        let title := Text.strip title
        return if title.isEmpty then none else some ⟨1, title, some page⟩
      | none => .ok none

end Contents

end Folio

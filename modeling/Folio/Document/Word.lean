import Folio.Document.Outline
import Folio.Document.Plain
import Folio.Xml

/-!
# Word-processor documents

As pages a document is split at its headings, and every table is a page of its own; as one text it is
the list of its paragraphs. A document whose package cannot be opened may still be read from the
markup in it.
-/

namespace Folio

def nonBlank? (t : Text) : Option Text :=
  let stripped := Text.strip t
  if stripped.isEmpty then none else some stripped

namespace Word

def paragraphs (blocks : List Block) : List (Text × Text) :=
  blocks.filterMap fun block =>
    match block with
    | .paragraph style text => some (style, text)
    | .table _ => none

def tables (blocks : List Block) : List (List (List Text)) :=
  blocks.filterMap fun block =>
    match block with
    | .paragraph _ _ => none
    | .table rows => some rows

def isHeading (style : Text) : Bool :=
  "heading".toList.isPrefixOf (Text.lower style)

structure Line where
  heading : Bool
  text : Text
deriving DecidableEq, Repr

def lines (blocks : List Block) : List Line :=
  (paragraphs blocks).filterMap fun (style, text) =>
    (nonBlank? text).map fun stripped => ⟨isHeading style, stripped⟩

/-- Puts a line in front of sections: a section that starts with a heading is left as it is. -/
def addLine (line : Line) : List (List Line) → List (List Line)
  | [] => [[line]]
  | [] :: rest => [line] :: rest
  | (first :: more) :: rest =>
    if first.heading then [line] :: (first :: more) :: rest else (line :: first :: more) :: rest

def sections (lines : List Line) : List (List Line) :=
  lines.foldr addLine []

def rowText? (cells : List Text) : Option Text :=
  match cells.filterMap nonBlank? with
  | [] => none
  | shown => some (Text.joinWith " | ".toList shown)

def tableText? (rows : List (List Text)) : Option Text :=
  match rows.filterMap rowText? with
  | [] => none
  | shown => some (Text.joinWith ['\n'] shown)

def pages (blocks : List Block) : List Text :=
  let found := (sections (lines blocks)).map (fun part => Text.joinWith ['\n'] (part.map Line.text))
    ++ (tables blocks).filterMap tableText?
  if found.isEmpty then [[]] else found

def wholeText (blocks : List Block) : Text :=
  Text.joinWith ['\n'] ((lines blocks).map Line.text)

def level? (style : Text) : Except Decimal.NumberFlaw (Option Nat) :=
  let word := "heading".toList
  let name := Text.lower (Text.strip style)
  let rest := name.drop word.length
  let digits := (rest.dropWhile Text.isSpace).takeWhile Text.isDecimal
  if word.isPrefixOf name && (rest.head?.map Text.isSpace).getD false && !digits.isEmpty then do
    return some (max 1 (← Decimal.readNumber digits))
  else .ok none

def heading? (style text : Text) : Except Decimal.NumberFlaw (Option Heading) :=
  match nonBlank? text with
  | none => .ok none
  | some title => do
    return (← level? style).map fun level => ⟨level, title, none⟩

def runs (t : Text) : List Text :=
  ((Text.splitAll '\n' t).flatMap (Text.splitAll '\t')).filter (!·.isEmpty)

def allRuns (blocks : List Block) : List Text :=
  blocks.flatMap fun block =>
    match block with
    | .paragraph _ text => runs text
    | .table rows => rows.flatten.flatMap runs

end Word

def textElement : Text := ['t']

def emptyArchive : List UInt8 :=
  [0x50, 0x4b, 0x05, 0x06] ++ List.replicate 18 0

def Content.members? : Content → Option (List (Text × Text))
  | .archive members => some members
  | .bytes raw => if raw == emptyArchive then some [] else none
  | _ => none

def Content.wordRuns? : Content → Option (List Text)
  | .word blocks => some (Word.allRuns blocks)
  | content => do
    let members ← content.members?
    let markup ← members.lookup "word/document.xml".toList
    let root ← Xml.parse? markup
    return root.textsBelow textElement

def Content.wordProblem? (path : Text) (content : Content) : Option Text :=
  match content with
  | .word _ => none
  | .slides _ =>
    some ("file ".toList ++ Text.quoted path ++ (" is not a Word file, content type is "
      ++ "'application/vnd.openxmlformats-officedocument.presentationml.presentation.main+xml'"
      ).toList)
  | _ =>
    if content.members?.isSome then
      some "\"There is no item named '[Content_Types].xml' in the archive\"".toList
    else some ("Package not found at '".toList ++ path ++ ['\''])

end Folio

import Folio.Course
import Folio.Document.Paged
import Folio.Document.Slides

/-!
# Texts for the index

A document that cannot be opened as what its name says is read from the markup in it, and failing
that as plain text.
-/

namespace Folio

abbrev TreeAction := Action FileTree Fault

namespace TreeAction

variable {α : Type}

def ofFailure : Except Failure α → TreeAction α
  | .ok a => pure a
  | .error e => throw (.failure e)

def ask (question : FileTree → Except SystemError α) : TreeAction α := do
  match question (← get) with
  | .ok a => return a
  | .error e => throw (.failure (.system e))

def complain (c : Complaint) : TreeAction α :=
  throw c.fault

def read (path : Path) : TreeAction Content :=
  ask (·.read path)

def write (path : Path) (t : Text) : TreeAction Unit := do
  set (← ask (·.write path t))

def resolve (path : Path) : TreeAction Path := do
  if path.parts.any fun part => part.toList.contains '\x00' then throw (.failure .nullInPath)
  match (← get).resolve path with
  | .path p => return p
  | .circle p => throw (.failure (.linkCircle p))

def shown (base path : Path) : TreeAction Text := do
  let path ← resolve path
  let base ← resolve base
  return (path.seenFrom base).text

end TreeAction

structure Readers where
  pdf : Bool
  word : Bool
  slides : Bool
deriving DecidableEq, Repr

def Path.kind? (path : Path) : Option DocumentKind :=
  match String.ofList (Text.lower path.ending) with
  | ".pdf" => some .pdf
  | ".docx" => some .word
  | ".pptx" => some .slides
  | _ => none

namespace Index

def textPages (size : Int) (path : Path) : TreeAction (List Text) := do
  let t := (← TreeAction.read path).plainText
  let pages ← TreeAction.ofFailure (pagesOfText size t)
  Action.checkTimes "semantic.read_text.chunk" (pieceCount size t)
  return pages

def pagedPages (path : Path) : TreeAction (List Text) := do
  let document ← TreeAction.ofFailure (Paged.parse (← TreeAction.read path).plainText)
  Action.checkTimes "semantic.read_pdf.page" document.pages.length
  return document.shownPages

def pageOfRuns (runs : List Text) : Text :=
  Text.joinWith ['\n'] (runs.filterMap nonBlank?)

def wordMarkupPages (path : Path) (content : Content) : TreeAction (List Text) :=
  match content.wordRuns? with
  | none => textPages linesPerPage path
  | some runs => do
    Action.checkTimes "semantic.read_docx_xml.node" runs.length
    return [pageOfRuns runs]

def wordPages (readers : Readers) (path : Path) : TreeAction (List Text) := do
  match readers.word, ← TreeAction.read path with
  | true, .word blocks =>
    Action.checkTimes "semantic.read_docx.paragraph" (Word.paragraphs blocks).length
    return [Word.wholeText blocks]
  | _, content => wordMarkupPages path content

def slideMarkup (slides : List (Option (List Text))) : TreeAction (Option (List Text)) :=
  Action.foldList (fun done slide => do
    match done with
    | none => return none
    | some pages =>
      Action.check "semantic.read_pptx_xml.slide"
      match slide with
      | none => return none
      | some runs =>
        Action.checkTimes "semantic.read_pptx_xml.node" runs.length
        return some (pages ++ [pageOfRuns runs])) (some []) slides

def slideMarkupPages (path : Path) (content : Content) : TreeAction (List Text) :=
  match content.slideRuns? with
  | none => textPages linesPerPage path
  | some slides => do
    match ← slideMarkup slides with
    | none => textPages linesPerPage path
    | some pages => return if pages.isEmpty then [[]] else pages

def slidePages (readers : Readers) (path : Path) : TreeAction (List Text) := do
  match readers.slides, ← TreeAction.read path with
  | true, .slides deck =>
    let pages ← Action.mapList (fun slide : Slide => do
      Action.check "semantic.read_pptx.slide"
      Action.checkTimes "semantic.read_pptx.shape" slide.allShapes.length
      return slide.shapeText) deck
    return if pages.isEmpty then [[]] else pages
  | _, content => slideMarkupPages path content

def extract (readers : Readers) (path : Path) : TreeAction (List Text) :=
  match path.kind? with
  | some .pdf => if readers.pdf then pagedPages path else textPages linesPerPage path
  | some .word => wordPages readers path
  | some .slides => slidePages readers path
  | none => textPages linesPerPage path

end Index

end Folio

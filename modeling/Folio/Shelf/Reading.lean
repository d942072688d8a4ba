import Folio.Shelf.Basic
import Folio.Text.Normalize

/-!
# Reading pages

The pages of a file come from the index that covers it, if there is one, and otherwise from the file
itself, in the way its name asks for.
-/

namespace Folio

namespace Reading

def require (installed : Bool) (kind : DocumentKind) : TreeAction Unit :=
  if installed then pure () else TreeAction.complain (.readerMissing kind)

def unreadable {α : Type} (kind : DocumentKind) (outline : Bool) (path : Path) (detail : Text) :
    TreeAction α :=
  TreeAction.complain (.unreadable kind outline path.name.toList detail)

def openPaged (readers : Readers) (outline : Bool) (path : Path) : TreeAction Paged := do
  require readers.pdf .pdf
  match (← get).read path with
  | .error e => unreadable .pdf outline path e.message
  | .ok content =>
    match Paged.parse content.plainText with
    | .error e => unreadable .pdf outline path e.message
    | .ok document => return document

def packageMissing (path : Path) : Text :=
  "Package not found at '".toList ++ path.text ++ ['\'']

def openWord (readers : Readers) (outline : Bool) (path : Path) : TreeAction (List Block) := do
  require readers.word .word
  match (← get).read path with
  | .error _ => unreadable .word outline path (packageMissing path)
  | .ok (.word blocks) => return blocks
  | .ok content =>
    unreadable .word outline path ((content.wordProblem? path.text).getD [])

def openSlides (readers : Readers) (outline : Bool) (path : Path) : TreeAction (List Slide) := do
  require readers.slides .slides
  match (← get).read path with
  | .error _ => unreadable .slides outline path (packageMissing path)
  | .ok (.slides deck) => return deck
  | .ok content =>
    unreadable .slides outline path ((content.slidesProblem? path.text).getD [])

def pagedPages (readers : Readers) (path : Path) : TreeAction (List Text) := do
  Action.check "file.read_pdf"
  let document ← openPaged readers false path
  Action.checkTimes "file.read_pdf.page" document.pages.length
  return document.shownPages

def wordPages (readers : Readers) (path : Path) : TreeAction (List Text) := do
  Action.check "file.read_docx"
  let blocks ← openWord readers false path
  Action.checkTimes "file.read_docx.paragraph" (Word.paragraphs blocks).length
  Action.forList (fun rows : List (List Text) => do
    Action.check "file.read_docx.table"
    Action.checkTimes "file.read_docx.table_row" rows.length) (Word.tables blocks)
  return Word.pages blocks

def slidePages (readers : Readers) (path : Path) : TreeAction (List Text) := do
  Action.check "file.read_pptx"
  let deck ← openSlides readers false path
  let pages ← Action.mapList (fun (slide, i) => do
    Action.check "file.read_pptx.slide"
    Action.checkTimes "file.read_pptx.shape" (Slide.allShapes slide).length
    Action.checkTimes "file.read_pptx.notes_line" (Slide.noteLines slide).length
    return Slide.page (i + 1) slide) deck.zipIdx
  return if pages.isEmpty then [[]] else pages

def textPages (size : Int) (path : Path) : TreeAction (List Text) := do
  Action.check "file.read_text"
  let t := (← TreeAction.read path).plainText
  let pages ← TreeAction.ofFailure (pagesOfText size t)
  Action.checkTimes "file.read_text.chunk" (pieceCount size t)
  return pages

def directPages (readers : Readers) (size : Int) (path : Path) : TreeAction (List Text) :=
  match path.kind? with
  | some .pdf => pagedPages readers path
  | some .word => wordPages readers path
  | some .slides => slidePages readers path
  | none => textPages size path

def pages (readers : Readers) (size : Int) (path : Path) : TreeAction (List Text) := do
  let found ← match ← Index.filePages? path with
    | some pages => pure pages
    | none => directPages readers size path
  Action.checkTimes "file.chunks.normalize" found.length
  return if found.isEmpty then [[]] else found.map Text.normalize

end Reading

/-- The pages of a file; they are read once. Text is cut into pages of `size` lines. -/
def File.pagesOf (file : File) (readers : Readers) (size : Int) : ShelfAction (List Text) := do
  Action.check "file.chunks"
  match (← get).pagesRead? file.id with
  | some pages => return pages
  | none =>
    let pages ← Shelf.onTree (Reading.pages readers size file.path)
    modify (·.keepPages file.id pages)
    return pages

def File.pages (file : File) (s : Setting) : ShelfAction (List Text) :=
  file.pagesOf s.readers linesPerPage

end Folio

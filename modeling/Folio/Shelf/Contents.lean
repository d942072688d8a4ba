import Folio.Shelf.Reading

/-!
# Tables of contents

A file whose document carries no outline is searched for lines that look like a table of contents on
its first pages.
-/

namespace Folio

namespace Contents

def takeUpTo {α β σ : Type} (limit : Nat) (f : α → Action σ Fault (Option β)) :
    List β → List α → Action σ Fault (List β)
  | done, [] => return done.reverse
  | done, a :: rest => do
    match ← f a with
    | none => takeUpTo limit f done rest
    | some b =>
      if limit ≤ done.length + 1 then return (b :: done).reverse
      takeUpTo limit f (b :: done) rest

def checked {σ : Type} :
    Except Decimal.NumberFlaw (Option Heading) → Action σ Fault (Option Heading)
  | .ok heading => pure heading
  | .error flaw => throw (.failure (.number flaw))

def pagedOutline (readers : Readers) (limit : Nat) (path : Path) :
    TreeAction (List Heading) := do
  Action.check "file.read_pdf_outline"
  let document ← Reading.openPaged readers true path
  match document.entries with
  | .error e => Reading.unreadable .pdf true path e.message
  | .ok entries =>
    takeUpTo limit (fun entry => do
      Action.check "file.read_pdf_outline.item"
      TreeAction.ofFailure (Paged.headingOf entry)) [] entries

def wordOutline (readers : Readers) (limit : Nat) (path : Path) : TreeAction (List Heading) := do
  Action.check "file.read_docx_outline"
  let blocks ← Reading.openWord readers true path
  takeUpTo limit (fun (style, text) => do
    Action.check "file.read_docx_outline.paragraph"
    checked (Word.heading? style text)) [] (Word.paragraphs blocks)

def slideOutline (readers : Readers) (limit : Nat) (path : Path) : TreeAction (List Heading) := do
  Action.check "file.read_pptx_outline"
  let deck ← Reading.openSlides readers true path
  takeUpTo limit (fun (slide, i) => do
    Action.check "file.read_pptx_outline.slide"
    if slide.ownTitle?.isNone then
      Action.checkTimes "file.read_pptx_outline.shape" slide.shapesToText
    return some (slide.heading (i + 1))) [] deck.zipIdx

def documentOutline (readers : Readers) (limit : Nat) (path : Path) :
    TreeAction (List Heading) := do
  if !(← TreeAction.ask (·.exists? path)) then return []
  match path.kind? with
  | some .pdf => pagedOutline readers limit path
  | some .word => wordOutline readers limit path
  | some .slides => slideOutline readers limit path
  | none => return []

def searchedPages : Nat := 8

/-- What is passed on the way through pages in search of a table of contents. -/
inductive Station where
  | page
  | line (text : Text)

def stations (pages : List Text) : List Station :=
  pages.flatMap fun page => .page :: (Text.splitLines page).map .line

def headingsAt (limit : Nat) : List Heading → List Station → ShelfAction (List Heading)
  | found, [] => return found.reverse
  | found, .page :: rest => do
    Action.check "file.extract_toc.chunk"
    headingsAt limit found rest
  | found, .line text :: rest => do
    Action.check "file.extract_toc.line"
    match ← checked (heading? (Text.strip text)) with
    | none => headingsAt limit found rest
    | some heading =>
      if found.contains heading then headingsAt limit found rest
      else if limit ≤ found.length + 1 then return (heading :: found).reverse
      else headingsAt limit (heading :: found) rest

end Contents

namespace File

def textOutline (file : File) (s : Setting) (limit : Nat) : ShelfAction (List Heading) := do
  Action.check "file.extract_toc"
  let pages ← file.pages s
  Contents.headingsAt limit [] (Contents.stations (pages.take Contents.searchedPages))

def table (file : File) (s : Setting) (limit : Nat) : ShelfAction Text := do
  let carried ← Shelf.onTree (Contents.documentOutline s.readers limit file.path)
  let headings ← if carried.isEmpty then file.textOutline s limit else pure carried
  let shown ← Shelf.onTree (s.shown file.path)
  if headings.isEmpty then return "No table of contents detected for ".toList ++ shown
  return "=== Table of contents for file ".toList ++ shown ++ " ===\n".toList
    ++ outlineText headings

end File

end Folio

import Folio.Index.Search
import Folio.Pattern.Matcher
import Folio.Shelf.Reading

/-!
# Files

The pages of a file, those that match a pattern, excerpts around the matches, and the pages that an
index finds for a query.
-/

namespace Folio

def pageLine (name : Text) (page : Numeral) (content : Text) : Text :=
  let head := '[' :: name ++ "] => [p.".toList ++ page.text ++ [']']
  if content.isEmpty then head else head ++ ' ' :: content

inductive PageChoice where
  | all
  | one (page : Numeral)
  | several (pages : List (Option Numeral))
  | other

namespace File

def pageText (file : File) (page : Numeral) (content : Text) : Text :=
  pageLine file.path.name.toList page content

/-- The pages asked for, each of them once; it is a complaint if one is out of range. -/
def choosePages (file : File) (total : Nat) : List Numeral → List (Option Numeral) →
    ShelfAction (List Numeral)
  | chosen, [] => return chosen.reverse
  | chosen, page :: rest => do
    Action.check "file.normalize_pages.item"
    match page with
    | none => throw Complaint.pagesMember.fault
    | some page =>
      if page.value < 1 || (total : Int) < page.value then
        if Decimal.isTooLong page.value then throw (.failure .numberTooLong)
        throw (Complaint.pageRange page.text file.path.name.toList total).fault
      if chosen.any (·.value == page.value) then choosePages file total chosen rest
      else choosePages file total (page :: chosen) rest

def writePages (file : File) (contents : List Text) (chosen : List Numeral) : List Text :=
  chosen.map fun page => file.pageText page (contents[(page.value - 1).toNat]?.getD [])

def allPages (file : File) (contents : List Text) : Text :=
  Text.joinWith ['\n', '\n']
    (contents.zipIdx.map fun (content, i) => file.pageText (.number (i + 1)) content)

inductive ReadResult where
  | text (t : Text)
  | texts (ts : List Text)

def read (file : File) (s : Setting) (choice : PageChoice) : ShelfAction ReadResult := do
  Action.check "file.read"
  let contents ← file.pages s
  match choice with
  | .all => return .text (file.allPages contents)
  | .one page =>
    Action.check "file.normalize_pages"
    let chosen ← file.choosePages contents.length [] [some page]
    return .text ((file.writePages contents chosen).head?.getD [])
  | .several pages =>
    Action.check "file.normalize_pages"
    let chosen ← file.choosePages contents.length [] pages
    return .texts (file.writePages contents chosen)
  | .other =>
    Action.check "file.normalize_pages"
    throw Complaint.pagesShape.fault

def search (file : File) (s : Setting) (pattern : Pattern) : ShelfAction (List Nat) := do
  let pages ← file.pages s
  Action.checkTimes "file.search.chunk" pages.length
  return pages.zipIdx.filterMap fun (page, i) =>
    if pattern.isFound page then some (i + 1) else none

def head (file : File) (s : Setting) : ShelfAction Text := do
  Action.check "file.head"
  return (← file.pages s).head?.getD []

def tail (file : File) (s : Setting) : ShelfAction Text := do
  Action.check "file.tail"
  return (← file.pages s).getLast?.getD []

def excerpt (context : Nat) (page : Text) (found : Span) : Text :=
  let part := Text.slice page (found.start - context) (min (found.stop + context) page.length)
  Text.strip (part.map fun c => if c == '\n' then ' ' else c)

def pageSnippets (pattern : Pattern) (limit context number : Nat) (page : Text) : List Text :=
  (pattern.findUpTo limit page).map fun found =>
    "[page ".toList ++ Text.ofNat number ++ "] ".toList ++ excerpt context page found

def snippetsOf (pattern : Pattern) (context : Nat) :
    Nat → Nat → List Text → ShelfAction (List Text)
  | _, _, [] => return []
  | limit, number, page :: rest => do
    Action.check "file.snippets.chunk"
    let found := pageSnippets pattern limit context number page
    if limit ≤ found.length then return found
    return found ++ (← snippetsOf pattern context (limit - found.length) (number + 1) rest)

def snippets (file : File) (s : Setting) (pattern : Pattern) (limit context : Nat) :
    ShelfAction (List Text) := do
  snippetsOf pattern context limit 1 (← file.pages s)

def semanticSearch (file : File) (s : Setting) (request : Index.Request) :
    ShelfAction (List Text) := do
  let found ← Shelf.onTree (Index.searchFileChunks s.cwd file.path request)
  return found.map fun (page, content) => file.pageText page content

end File

end Folio

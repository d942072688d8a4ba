import Folio.Shelf.Contents
import Folio.Value.Arguments
import Folio.Value.Compare

/-!
# Methods of files and directories

Arguments are checked in the order in which the library complains about them.
-/

namespace Folio

namespace Run

def compilePattern (pattern ignoreCase : Value) : Run Pattern := do
  match pattern with
  | .text source =>
    match Pattern.compile (← ignoreCase.truth) source with
    | .ok compiled => return compiled
    | .error flaw =>
      if flaw.isRefusal then complain (.badPattern source flaw)
      else fail (.pattern source flaw)
  | _ => complain .patternNotText

def limitArgument (least : Int) (complaint : Complaint) (v : Value) : Run Numeral :=
  match v.numeral? with
  | some n => if n.value < least then complain complaint else return n
  | none => complain complaint

def sizeArgument (least : Int) (complaint : Complaint) (v : Value) : Run Nat := do
  return (← limitArgument least complaint v).value.toNat

def request (query limit : Value) : Run Index.Request :=
  match Index.Request.make query.text? limit.int? with
  | .ok request => return request
  | .error c => complain c

def choice (fallback : Bool) : Value → Run Bool
  | .nothing => return fallback
  | v => v.truth

def texts (ts : List Text) : Run Value :=
  newList (ts.map .text)

end Run

namespace FileMethod

def fullName (m : FileMethod) : String :=
  "DSLFile." ++ m.name

def parameters : FileMethod → List Parameter
  | .read => [optional "pages" .nothing]
  | .search => [required "pattern", optional "ignore_case" (.bool false)]
  | .contains => [required "pattern", optional "ignore_case" (.bool false)]
  | .head => []
  | .tail => []
  | .table => [optional "max_items" (.int 50)]
  | .semanticSearch => [required "query", optional "top_k" (.int 5)]
  | .snippets => [required "pattern", optional "max_results" (.int 5),
      optional "context_chars" (.int 80), optional "ignore_case" (.bool false)]

def pageChoice (w : World) : Value → PageChoice
  | .nothing => .all
  | .list ref => .several ((w.items ref).toList.map Value.numeral?)
  | v =>
    match v.numeral? with
    | some page => .one page
    | none => .other

def matchingPages (s : Setting) (f : File) (b : Bound) : Run (List Nat) := do
  Action.check "file.search"
  let pattern ← Run.compilePattern (b.value "pattern") (b.value "ignore_case")
  Run.onShelf (f.search s pattern)

def call (s : Setting) (m : FileMethod) (f : File) (args : Arguments) : Run Value := do
  let b ← Run.ofArgument (args.bind m.fullName m.parameters)
  match m with
  | .read =>
    match ← Run.onShelf (f.read s (pageChoice (← get) (b.value "pages"))) with
    | .text t => return .text t
    | .texts ts => Run.texts ts
  | .search => Run.newList ((← matchingPages s f b).map fun page : Nat => .int page)
  | .contains => return .bool (!(← matchingPages s f b).isEmpty)
  | .head => return .text (← Run.onShelf (f.head s))
  | .tail => return .text (← Run.onShelf (f.tail s))
  | .table =>
    Action.check "file.table"
    let limit ← Run.sizeArgument 1 .badMaxItems (b.value "max_items")
    return .text (← Run.onShelf (f.table s limit))
  | .semanticSearch =>
    let request ← Run.request (b.value "query") (b.value "top_k")
    Run.texts (← Run.onShelf (f.semanticSearch s request))
  | .snippets =>
    Action.check "file.snippets"
    let limit ← Run.sizeArgument 1 .badMaxResults (b.value "max_results")
    let context ← Run.sizeArgument 0 .badContext (b.value "context_chars")
    let pattern ← Run.compilePattern (b.value "pattern") (b.value "ignore_case")
    Run.texts (← Run.onShelf (f.snippets s pattern limit context))

end FileMethod

namespace DirectoryMethod

def fullName (m : DirectoryMethod) : String :=
  "DSLDirectory." ++ m.name

def parameters : DirectoryMethod → List Parameter
  | .files => [optional "recursive" .nothing]
  | .tree => [optional "max_depth" (.int 5), optional "max_entries" (.int 500)]
  | .search => [required "pattern", optional "scope" (.text "name".toList),
      optional "in_content" (.bool false), optional "recursive" .nothing,
      optional "ignore_case" (.bool false)]
  | .semanticSearch =>
    [required "query", optional "top_k" (.int 5), optional "recursive" .nothing]
  | .length => []

def handles (files : List File) : Run Value :=
  Run.newList (files.map .file)

def scope (inContent : Bool) (v : Value) : Run Directory.Scope :=
  if inContent then return .content
  else
    match v with
    | .text t =>
      match Directory.Scope.ofText? t with
      | some scope => return scope
      | none => Run.complain .badScope
    | .list _ => Run.fail (.argument (.unhashable v.typeName))
    | _ => Run.complain .badScope

def callSearch (s : Setting) (d : Directory) (b : Bound) : Run Value := do
  Action.check "directory.search"
  let scope ← scope (← (b.value "in_content").truth) (b.value "scope")
  let pattern ← Run.compilePattern (b.value "pattern") (b.value "ignore_case")
  let recursive ← Run.choice d.recursive (b.value "recursive")
  handles (← Run.onShelf (d.search s pattern scope recursive))

def callSemanticSearch (s : Setting) (d : Directory) (b : Bound) : Run Value := do
  Action.check "directory.semantic_search"
  let request ← Run.request (b.value "query") (b.value "top_k")
  let recursive ← match b.value "recursive" with
    | .nothing => pure d.recursive
    | .bool recursive => pure recursive
    | _ => Run.complain .recursiveNotBool
  Run.texts (← Run.onTree (d.semanticSearch s request recursive))

def call (s : Setting) (m : DirectoryMethod) (d : Directory) (args : Arguments) : Run Value := do
  let b ← Run.ofArgument (args.bind m.fullName m.parameters)
  match m with
  | .files =>
    Action.check "directory.files"
    let recursive ← Run.choice d.recursive (b.value "recursive")
    handles (← Run.onShelf (d.files recursive))
  | .tree =>
    Action.check "directory.tree"
    let depth ← Run.sizeArgument 0 .badDepth (b.value "max_depth")
    let entries ← Run.limitArgument 1 .badEntries (b.value "max_entries")
    return .text (← Run.onTree (d.tree s depth entries))
  | .search => callSearch s d b
  | .semanticSearch => callSemanticSearch s d b
  | .length => return .int (← Run.onTree d.size)

end DirectoryMethod

end Folio

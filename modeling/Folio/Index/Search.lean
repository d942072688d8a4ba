import Folio.Index.Listing

/-!
# Searches in an index

A search scores the records by the product of their vectors with the vector of the query and gives
the best of them. Of records with the same score, those of a document come in the order of their
pages, and those of a directory in the order of their paths and pages.
-/

namespace Folio.Index

structure Request where
  query : Text
  limit : Nat
deriving DecidableEq, Repr

/-- The request of a query and a limit, each `none` if it is of the wrong type. -/
def Request.make (query : Option Text) (limit : Option Int) : Except Complaint Request :=
  match query with
  | none => .error .blankQuery
  | some query =>
    if (Text.strip query).isEmpty then .error .blankQuery
    else
      match limit with
      | none => .error .badLimit
      | some n => if n < 1 then .error .badLimit else .ok ⟨Text.strip query, n.toNat⟩

structure Scored (α : Type) where
  score : Float
  item : α

/-- The best results: the highest score first, those of one score in the order `le`, and where that
does not decide, in the order in which they came. -/
def best {α : Type} (le : α → α → Bool) (limit : Nat) (results : List (Scored α)) : List α :=
  ((results.mergeSort fun a b =>
    if a.score > b.score then true
    else if a.score < b.score then false
    else le a.item b.item).take limit).map (·.item)

def embedQuery (query : Text) : TreeAction Embedding := do
  match ← embedAll [query] with
  | vector :: _ => return vector
  | [] => return []

def searchFilePages (base path : Path) (request : Request) : TreeAction (List Numeral) := do
  let p ← position base path
  let vectors := (← loadVectors p.db).toArray
  let catalogue ← loadCatalogue p.db
  let query ← embedQuery request.query
  let positions := (catalogue.positions.lookup p.inside).getD []
  Action.checkTimes "semantic.search.record" positions.length
  let results := positions.filterMap fun (i, page) =>
    vectors[i]?.map fun vector => Scored.mk (dot query vector) page
  return best (fun _ _ => true) request.limit results

def searchFileChunks (base path : Path) (request : Request) :
    TreeAction (List (Numeral × Text)) := do
  let p ← position base path
  let vectors ← loadVectors p.db
  let records ← loadRecords p.db
  let query ← embedQuery request.query
  Action.checkTimes "semantic.search.record" records.length
  let results := (records.zip vectors).filterMap fun (r, vector) =>
    if r.path? == some p.inside then
      r.page?.map fun page => Scored.mk (dot query vector) (page, r.text)
    else none
  return best (fun a b => a.1.value ≤ b.1.value) request.limit results

def searchDirectoryChunks (base path : Path) (request : Request) ( recursive : Bool) :
    TreeAction (List (Path × Numeral × Text)) := do
  let p ← position base path
  let vectors ← loadVectors p.db
  let records ← loadRecords p.db
  let query ← embedQuery request.query
  Action.checkTimes "semantic.directory_search.record" records.length
  let results := (records.zip vectors).filterMap fun (r, vector) => do
    let path ← r.path?
    let page ← r.page?
    if isInFolder recursive p.folder path then
      return Scored.mk (dot query vector) (path, page, r.text)
    else none
  let found := best (fun a b => if a.1 == b.1 then a.2.1.value ≤ b.2.1.value else a.1 < b.1)
    request.limit results
  return found.map fun (path, page, text) => (documentPath p.root path, page, text)

def bestScore? (query : Embedding) (vectors : List Embedding) : Option Float :=
  vectors.foldl (fun best vector =>
    let score := dot query vector
    match best with
    | some other => some (if score > other then score else other)
    | none => some score) none

def searchDirectoryFiles (base path : Path) (request : Request) ( recursive : Bool) :
    TreeAction (List Path) := do
  let p ← position base path
  let vectors := (← loadVectors p.db).toArray
  let catalogue ← loadCatalogue p.db
  let query ← embedQuery request.query
  let results ← Action.mapList (fun (path, positions) => do
    Action.check "semantic.directory_search.file"
    if isInFolder recursive p.folder path then
      Action.checkTimes "semantic.directory_search.record" positions.length
      return (bestScore? query (positions.filterMap fun (i, _) => vectors[i]?)).map
        fun score => Scored.mk score (documentPath p.root path)
    else return none) catalogue.positions
  return best Path.le request.limit (results.filterMap id)

end Folio.Index

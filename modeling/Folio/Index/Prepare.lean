import Folio.Index.Store
import Folio.Text.Normalize

/-!
# Making an index

The index of a folder is made from all documents in and below the folder, in the order of their
paths, the files of an index already there left out.
-/

namespace Folio.Index

structure Summary where
  folder : Path
  db : Path
  files : Nat
  pages : Nat
deriving DecidableEq, Repr

def pageRecord (inside name : Text) (number : Nat) (page : Text) : Record × Text :=
  let text := Text.strip (Text.normalize page)
  (Record.ofPage inside name number text, Record.searched inside text)

def documentRecords (readers : Readers) (folder path : Path) :
    TreeAction (List (Record × Text)) := do
  Action.check "semantic.prepare.file"
  let pages ← extract readers path
  Action.mapList (fun (page, i) => do
    Action.check "semantic.prepare.page"
    return pageRecord (path.inside folder) path.name.toList (i + 1) page) pages.zipIdx

def isDocument (db path : Path) : TreeAction Bool := do
  if !(← TreeAction.ask (·.isFile? path)) then return false
  return !(path.isWithin db)

def recordsAt (readers : Readers) (folder db path : Path) :
    TreeAction (Option (List (Record × Text))) := do
  Action.check "semantic.iter_documents.path"
  if ← isDocument db path then return some (← documentRecords readers folder path)
  return none

def prepare (readers : Readers) (folder : Path) : TreeAction Summary := do
  let folder ← TreeAction.resolve folder
  if !(← TreeAction.ask (·.exists? folder)) then TreeAction.complain (.folderMissing folder.text)
  if !(← TreeAction.ask (·.isDirectory? folder)) then
    TreeAction.complain (.notDirectory folder.text)
  let db := folder.child directoryName
  set (← TreeAction.ask (·.makeDirectory db))
  let documents ← Action.mapList (recordsAt readers folder db) (Path.sort ((← get).below folder))
  let documents := documents.filterMap id
  let records := documents.flatten
  writeFiles db (records.map (·.1)) (records.map (·.2))
  return ⟨folder, db, documents.length, records.length⟩

end Folio.Index

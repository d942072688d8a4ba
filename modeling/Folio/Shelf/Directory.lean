import Folio.Shelf.File
import Folio.Shelf.TreeView

/-!
# Directories

The files of a directory, those whose names or pages match a pattern, and the pages that an index
finds for a query.
-/

namespace Folio

namespace Directory

def walkedPaths (path : Path) ( recursive : Bool) : TreeAction (List Path) := do
  let tree ← get
  let entries := if recursive then tree.below path else tree.children path
  let phase := if recursive then "directory.iter_paths.recursive" else "directory.iter_paths.flat"
  let files ← Action.mapList (fun entry => do
    Action.check phase
    if ← TreeAction.ask (·.isFile? entry) then return some entry
    return none) entries
  return Path.sort (files.filterMap fun entry => entry)

/-- The paths of the files in a directory, or also below it, in order: those of the index that covers
the directory, or else those of the file system. -/
def filePaths (path : Path) ( recursive : Bool) : TreeAction (List Path) := do
  Action.check "directory.iter_paths"
  match ← Index.directoryPaths? path recursive with
  | some paths => return paths
  | none => walkedPaths path recursive

def size (directory : Directory) : TreeAction Nat := do
  Action.check "directory.len"
  return (← filePaths directory.path directory.recursive).length

def files (directory : Directory) ( recursive : Bool) : ShelfAction (List File) := do
  Action.mapList Shelf.openFile (← Shelf.onTree (filePaths directory.path recursive))

def loopPaths (directory : Directory) : TreeAction (List Path) := do
  Action.check "directory.iter"
  filePaths directory.path directory.recursive

def loopFile (path : Path) : ShelfAction File := do
  Action.check "directory.iter.file"
  Shelf.openFile path

inductive Scope where
  | name
  | content
  | both
deriving DecidableEq, Repr

def Scope.ofText? (t : Text) : Option Scope :=
  match String.ofList t with
  | "name" => some .name
  | "content" => some .content
  | "both" => some .both
  | _ => none

def nameMatches (directory : Directory) (pattern : Pattern) (file : File) : ShelfAction Bool := do
  match file.path.relativeTo? directory.path with
  | none => throw (.failure (.notBelow file.path directory.path))
  | some inside => return pattern.isFound file.path.name.toList || pattern.isFound inside.text

def contentMatches (s : Setting) (pattern : Pattern) (file : File) : ShelfAction Bool := do
  Action.check "file.search"
  return !(← file.search s pattern).isEmpty

def fileMatches (directory : Directory) (s : Setting) (pattern : Pattern) (scope : Scope)
    (file : File) : ShelfAction Bool := do
  Action.check "directory.search.file"
  let byName ← directory.nameMatches pattern file
  match scope with
  | .name => return byName
  | .content => contentMatches s pattern file
  | .both => return (← contentMatches s pattern file) || byName

def search (directory : Directory) (s : Setting) (pattern : Pattern) (scope : Scope)
    ( recursive : Bool) : ShelfAction (List File) := do
  let files ← directory.files recursive
  let found ← Action.mapList (fun file => do
    if ← directory.fileMatches s pattern scope file then return some file
    return none) files
  return found.filterMap fun file => file

def semanticSearch (directory : Directory) (s : Setting) (request : Index.Request)
    ( recursive : Bool) : TreeAction (List Text) := do
  let found ← Index.searchDirectoryChunks s.cwd directory.path request recursive
  Action.mapList (fun (path, page, content) => do
    Action.check "directory.semantic_search.result"
    return pageLine (← s.shown path) page content) found

end Directory

end Folio

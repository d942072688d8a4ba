import Folio.Index.Store

/-!
# Documents in an index

An index knows the pages of the documents it was made from, and which of them are in a directory,
also when they are gone.
-/

namespace Folio.Index

structure Position where
  root : Path
  inside : Text

namespace Position

def db (p : Position) : Path :=
  p.root.child directoryName

def ofRoot (root path : Path) : Position where
  root := root
  inside := path.inside root

/-- A directory as a part of the paths in an index; the folder itself is empty. -/
def folder (p : Position) : Text :=
  if p.inside == ['.'] then [] else p.inside

end Position

def position? (path : Path) : TreeAction (Option Position) := do
  let path ← TreeAction.resolve path
  match ← findRoot? path with
  | some root => return some (Position.ofRoot root path)
  | none => return none

def position (base path : Path) : TreeAction Position := do
  let path ← TreeAction.resolve path
  return Position.ofRoot (← findRoot base path) path

def parentFolder (path : Text) : Text :=
  let parent := (WrittenPath.ofText path).parent.text
  if parent == ['.'] then [] else parent

def isInFolder ( recursive : Bool) (folder path : Text) : Bool :=
  if recursive then folder.isEmpty || (folder ++ ['/']).isPrefixOf path
  else parentFolder path == folder

def documentPath (root : Path) (path : Text) : Path :=
  root.join (WrittenPath.ofText path)

def filePages? (path : Path) : TreeAction (Option (List Text)) := do
  match ← position? path with
  | none => return none
  | some p =>
    if !(← TreeAction.ask (·.isFile? (recordsFile p.db))) then return none
    let catalogue ← loadCatalogue p.db
    match catalogue.pages.lookup p.inside with
    | none => return none
    | some pages =>
      Action.checkTimes "semantic.file_pages.record" pages.length
      return some (pages.map (·.2))

def directoryPaths? (path : Path) ( recursive : Bool) : TreeAction (Option (List Path)) := do
  match ← position? path with
  | none => return none
  | some p =>
    if !(← TreeAction.ask (·.isFile? (recordsFile p.db))) then return none
    let catalogue ← loadCatalogue p.db
    Action.checkTimes "semantic.directory_paths.record" catalogue.pages.length
    let paths := catalogue.pages.filterMap fun (path, _) =>
      if isInFolder recursive p.folder path then some (documentPath p.root path) else none
    return some (Path.sortDistinct paths)

end Folio.Index

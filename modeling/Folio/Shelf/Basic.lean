import Folio.Index.Listing

/-!
# The shelf

A program holds files and directories by handles, and two handles on one path are different things.
The pages of a file are read only once through one handle.
-/

namespace Folio

structure File where
  id : Nat
  path : Path
deriving DecidableEq, Repr

structure Directory where
  id : Nat
  path : Path
  recursive : Bool
deriving DecidableEq, Repr

/-- What a handle was given out for; a file with its pages, once they were read. -/
inductive Handle where
  | file (path : Path) (pages : Option (List Text))
  | directory (path : Path)
deriving DecidableEq, Repr

structure Shelf where
  tree : FileTree
  handles : Array Handle

abbrev ShelfAction := Action Shelf Fault

/-- A program names paths from `cwd` and may reach what is in `sandbox`. -/
structure Setting where
  cwd : Path
  sandbox : Path
  readers : Readers
deriving DecidableEq, Repr

namespace Shelf

def ofTree (tree : FileTree) : Shelf := ⟨tree, #[]⟩

def onTree {α : Type} (a : TreeAction α) : ShelfAction α :=
  a.within (·.tree) fun tree shelf => { shelf with tree := tree }

def giveOut (handle : Handle) : ShelfAction Nat := do
  let shelf ← get
  set { shelf with handles := shelf.handles.push handle }
  return shelf.handles.size

def openFile (path : Path) : ShelfAction File := do
  return ⟨← giveOut (.file path none), path⟩

def openDirectory (path : Path) ( recursive : Bool) : ShelfAction Directory := do
  return ⟨← giveOut (.directory path), path, recursive⟩

def pagesRead? (shelf : Shelf) (id : Nat) : Option (List Text) :=
  match shelf.handles[id]? with
  | some (.file _ pages) => pages
  | _ => none

def keepPages (shelf : Shelf) (id : Nat) (pages : List Text) : Shelf :=
  { shelf with handles := shelf.handles.modify id fun handle =>
      match handle with
      | .file path _ => .file path (some pages)
      | .directory path => .directory path }

end Shelf

namespace Setting

def shown (s : Setting) (path : Path) : TreeAction Text :=
  TreeAction.shown s.cwd path

/-- The path that a program names, without links. It is a complaint if it is outside the sandbox. -/
def locate (s : Setting) (path : Text) : TreeAction Path := do
  let found ← TreeAction.resolve (s.cwd.join (WrittenPath.ofText path))
  if found.isWithin s.sandbox then return found
  TreeAction.complain (.accessDenied (← s.shown found) (← s.shown s.sandbox))

/-- Opens the file that a program names. A file that is gone may still be in an index. -/
def openFile (s : Setting) (path : Text) : ShelfAction File := do
  let found ← Shelf.onTree (s.locate path)
  if ← Shelf.onTree (TreeAction.ask (·.isFile? found)) then return ← Shelf.openFile found
  if (← Shelf.onTree (Index.filePages? found)).isSome then return ← Shelf.openFile found
  Shelf.onTree do
    if ← TreeAction.ask (·.exists? found) then
      TreeAction.complain (.notFile (← s.shown found))
    else TreeAction.complain (.fileMissing (← s.shown found))

/-- Opens a directory. A directory that is gone may still have documents in an index. -/
def openDirectoryAt (s : Setting) (path : Path) ( recursive : Bool) : ShelfAction Directory := do
  Shelf.onTree do
    if ← TreeAction.ask (·.exists? path) then
      if !(← TreeAction.ask (·.isDirectory? path)) then
        TreeAction.complain (.notDirectory (← s.shown path))
    else
      let documents := (← Index.directoryPaths? path true).getD []
      if documents.isEmpty then TreeAction.complain (.directoryMissing (← s.shown path))
  Shelf.openDirectory path recursive

end Setting

end Folio
